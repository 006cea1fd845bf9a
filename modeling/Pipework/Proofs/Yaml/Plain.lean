import Pipework.Proofs.Yaml.Scalars

/-!
# Texts without quotes

What a text without quotes is demanded to have is what keeps its reader from stopping early, and the
scanner from taking its beginning for something else.
-/

namespace Pipework.Yaml

variable {c : Char} {cs out rest : List Char} {gap : Gap} {mark : Mark} {indent : Int}

theorem readPlain_blank (unbroken : gap.isBroken = false) :
    readPlain false indent out gap mark (' ' :: cs) =
      readPlain false indent out (gap.addBlank ' ') (mark.next ' ') cs := by
  rw [readPlain, unbroken]
  rfl

/-- A character that is neither a blank nor an end is read. -/
theorem readPlain_char (line : isBreak c = false) (solid : isBlank c = false)
    (goesOn : endsAfterGap false indent gap mark (c :: cs) = false)
    (noColon : (c == ':' && atSpace cs) = false) :
    readPlain false indent out gap mark (c :: cs) =
      readPlain false indent (c :: (gap.text.reverse ++ out)) .none (mark.next c) cs := by
  rw [readPlain, line, solid, goesOn, noColon]
  rfl

/-- A gap on the line of a scalar does not end it, unless there is a comment. -/
theorem endsAfterGap_inside (deep : indent ≤ mark.column) (inside : 0 < mark.column ∨ gap = .none)
    (noComment : gap = .none ∨ c ≠ '#') : endsAfterGap false indent gap mark (c :: cs) = false := by
  by_cases closed : gap = .none
  · rw [closed]
    rfl
  · have reached : ¬ (mark.column : Int) < indent := Int.not_lt.mpr deep
    have other : c ≠ '#' := noComment.resolve_left closed
    have notStart : (mark.column == 0) = false :=
      beq_false_of_ne (Nat.ne_of_gt (inside.resolve_right closed))
    simp [endsAfterGap, atDocumentMark, reached, notStart, other]

theorem hidesIndicator_cons {prev : Char} (bare : hidesIndicator (prev :: c :: cs) = false) :
    (c == ':' && atSpace cs) = false ∧ (c == '#' && isSpace prev) = false ∧
      hidesIndicator (c :: cs) = false := by
  simpa only [hidesIndicator, Bool.or_eq_false_iff, and_assoc] using bare

theorem noEdge_tail (last : (c :: cs).getLast?.any isEdge = false) :
    cs.getLast?.any isEdge = false := by
  cases cs with
  | nil => rfl
  | cons d ds => rwa [List.getLast?_cons_cons] at last

/-- A text without an end in it is read up to its end. `prev` is what stands in front of it. -/
theorem readPlain_append (text : List Char) (prev : Char)
    (behindBlank : gap ≠ .none → isSpace prev = true) (unbroken : gap.isBroken = false)
    (closed : text = [] → gap = .none) (bare : hidesIndicator (prev :: text) = false)
    (printable : ∀ c ∈ text, isPrintable c = true) (line : ∀ c ∈ text, isBreak c = false)
    (last : text.getLast?.any isEdge = false) (deep : indent ≤ mark.column)
    (inside : 0 < mark.column ∨ gap = .none) :
    readPlain false indent out gap mark (text ++ rest) =
      readPlain false indent (text.reverse ++ (gap.text.reverse ++ out)) .none (mark.after text)
        rest := by
  induction text generalizing prev gap mark out with
  | nil =>
    rw [closed rfl]
    rfl
  | cons c text ih =>
    obtain ⟨noColon, noComment, bare⟩ := hidesIndicator_cons bare
    have here := line c List.mem_cons_self
    have more := fun d mem => printable d (List.mem_cons_of_mem c mem)
    have lines := fun d mem => line d (List.mem_cons_of_mem c mem)
    have next : mark.next c = ⟨_, _, _⟩ := Mark.next_of_not_break here
    have deeper : indent ≤ (mark.next c).column := by
      rw [next]
      exact Int.le_trans deep (Int.ofNat_le.mpr (Nat.le_succ _))
    have beyond : 0 < (mark.next c).column ∨ gap.addBlank c = .none := by
      rw [next]
      exact .inl (Nat.succ_pos _)
    rw [List.cons_append, Mark.after_cons]
    by_cases blank : c = ' '
    · subst blank
      have goesOn : text = [] → gap.addBlank ' ' = .none := by
        rintro rfl
        cases last
      rw [readPlain_blank unbroken, ih ' ' (fun _ => rfl) (Gap.isBroken_addBlank.trans unbroken)
        goesOn bare more lines (noEdge_tail last) deeper beyond, Gap.text_addBlank unbroken]
      simp only [List.reverse_append, List.reverse_cons, List.reverse_nil, List.nil_append,
        List.append_assoc, List.cons_append]
    · have solid : isBlank c = false := by
        rw [isBlank_of_isPrintable (printable c List.mem_cons_self)]
        exact beq_false_of_ne blank
      have noComment : gap = .none ∨ c ≠ '#' := by
        refine Decidable.or_iff_not_imp_left.mpr fun some => ?_
        rw [behindBlank some, Bool.and_true] at noComment
        exact ne_of_beq_false noComment
      have noColon : (c == ':' && atSpace (text ++ rest)) = false := by
        cases text with
        | nil =>
          rw [show atSpace [] = true from rfl, Bool.and_true] at noColon
          rw [noColon, Bool.false_and]
        | cons d ds => exact noColon
      rw [readPlain_char here solid (endsAfterGap_inside deep inside noComment) noColon,
        ih c (fun some => absurd rfl some) rfl (fun _ => rfl) bare more lines (noEdge_tail last)
          deeper (.inr rfl)]
      simp only [Gap.text, List.reverse_cons, List.reverse_nil, List.nil_append, List.append_assoc,
        List.cons_append]

/-- What a text has that stands without quotes. -/
theorem allowsPlain_iff : allowsPlain cs = true ↔
    cs ≠ [] ∧ (∀ c ∈ cs, isPrintable c = true) ∧ (∀ c ∈ cs, isBreak c = false) ∧
      cs.head?.any isEdge = false ∧ cs.getLast?.any isEdge = false ∧
      ['-', '-', '-'].isPrefixOf cs = false ∧ ['.', '.', '.'].isPrefixOf cs = false ∧
      opensOther cs = false ∧ hidesIndicator cs = false := by
  simp only [allowsPlain, isMultiline, Bool.and_eq_true, Bool.not_eq_true', Bool.or_eq_false_iff,
    List.isEmpty_eq_false_iff, List.all_eq_true, List.any_eq_false, and_assoc, Bool.not_eq_true]

/-- The scalar ends on its line, or at the end of it. -/
def EndsPlain (rest : List Char) : Prop :=
  ∃ c cs, rest = c :: cs ∧ (c = '\n' ∨ c = ':' ∧ atSpace cs = true)

/-- There is no document mark where a text without quotes begins. -/
theorem isDocumentMark_plain {m : Char} (ends : EndsPlain rest) (other : m ≠ '\n' ∧ m ≠ ':')
    (noPrefix : [m, m, m].isPrefixOf cs = false) (some : cs ≠ []) :
    isDocumentMark m (cs ++ rest) = false := by
  obtain ⟨e, es, rfl, kind⟩ := ends
  have stop : (e == m) = false := by
    rcases kind with rfl | ⟨rfl, -⟩
    · exact beq_false_of_ne other.1.symm
    · exact beq_false_of_ne other.2.symm
  match cs with
  | [a] =>
    cases es with
    | nil => rfl
    | cons f fs => simp [isDocumentMark, stop]
  | [a, b] => simp [isDocumentMark, stop]
  | a :: b :: d :: ds =>
    simp only [List.isPrefixOf, Bool.and_true, Bool.beq_comm (a := m)] at noPrefix
    simp only [List.cons_append, isDocumentMark, Bool.and_assoc]
    rw [← Bool.and_assoc (b == m), ← Bool.and_assoc, noPrefix, Bool.false_and]

/-- A mark of something else that begins a text without quotes has a character behind it. -/
theorem atSpace_of_opensOther (opens : opensOther (c :: cs) = false)
    (mark : c = '?' ∨ c = ':' ∨ c = '-') : atSpace (cs ++ rest) = false := by
  have space : atSpace cs = false := by
    have kind : (c == '?' || c == ':' || c == '-') = true := by
      rcases mark with rfl | rfl | rfl <;> rfl
    rw [opensOther, Bool.or_eq_false_iff, kind, Bool.true_and] at opens
    exact opens.2
  cases cs with
  | nil => cases space
  | cons d ds => exact space

/-- A text without quotes is read as such where it begins. -/
theorem takeToken_plain {s : Scanner} (plain : allowsPlain (c :: cs) = true) (ends : EndsPlain rest)
    (outside : s.outerStarts = []) :
    isVisible c = true ∧ s.takeToken c (cs ++ rest) = s.takePlain := by
  obtain ⟨some, printable, line, first, -, noStart, noEnd, opens, -⟩ := allowsPlain_iff.mp plain
  have noStart : isDocumentMark '-' (c :: (cs ++ rest)) = false :=
    isDocumentMark_plain ends (by decide) noStart some
  have noEnd : isDocumentMark '.' (c :: (cs ++ rest)) = false :=
    isDocumentMark_plain ends (by decide) noEnd some
  have print := printable c List.mem_cons_self
  have solid : isBlank c = false := by
    rw [isBlank_of_isPrintable print]
    have first : isEdge c = false := first
    exact (Bool.or_eq_false_iff.mp first).1
  have space : isSpace c = false := by rw [isSpace, solid, line c List.mem_cons_self]; rfl
  have known : indicators.contains c = false := by
    rw [opensOther, Bool.or_eq_false_iff] at opens
    exact opens.1
  have noMark : c ≠ byteOrderMark := ne_of_class print rfl
  simp only [indicators, List.contains_eq_mem, List.mem_cons, List.not_mem_nil, or_false,
    decide_eq_false_iff_not, not_or] at known
  have flow : s.inFlow = false := by rw [Scanner.inFlow, outside]; rfl
  by_cases mark : c = '?' ∨ c = ':' ∨ c = '-'
  · have behind : atSpace (cs ++ rest) = false := atSpace_of_opensOther opens mark
    have noBlank : (cs ++ rest).head?.any isBlank = false := by
      cases next : cs ++ rest with
      | nil => rfl
      | cons d ds =>
        rw [next] at behind
        exact (Bool.or_eq_false_iff.mp (show isSpace d = false from behind)).1
    have starts : Scanner.startsPlain false c (cs ++ rest) = true := by
      rw [Scanner.startsPlain, behind, noBlank]
      rcases mark with rfl | rfl | rfl <;> decide
    rcases mark with rfl | rfl | rfl <;> refine ⟨rfl, ?_⟩ <;>
      simp [Scanner.takeToken, noStart, noEnd, behind, starts, flow]
  · simp only [not_or] at mark
    have starts : Scanner.startsPlain false c (cs ++ rest) = true := by
      have other : Scanner.openers.contains c = false := by simp [Scanner.openers, known, mark]
      rw [Scanner.startsPlain, space, other]
      rfl
    refine ⟨isVisible_iff.mpr ⟨line c List.mem_cons_self, solid, known.1, noMark⟩, ?_⟩
    simp [Scanner.takeToken, noStart, noEnd, known, mark, starts, flow]

/-- A text without quotes is read up to its end, wherever it stands in its block. -/
theorem readPlain_plain (plain : allowsPlain cs = true) (deep : indent ≤ mark.column + 1) :
    readPlain false indent [] .none mark (cs ++ rest) =
      readPlain false indent cs.reverse .none (mark.after cs) rest := by
  obtain ⟨some, printable, line, first, last, -, -, opens, bare⟩ := allowsPlain_iff.mp plain
  obtain ⟨c, ds, rfl⟩ := List.exists_cons_of_ne_nil some
  have here := line c List.mem_cons_self
  have solid : isBlank c = false := by
    rw [isBlank_of_isPrintable (printable c List.mem_cons_self)]
    exact (Bool.or_eq_false_iff.mp (show isEdge c = false from first)).1
  have noColon : (c == ':' && atSpace (ds ++ rest)) = false := by
    by_cases colon : c = ':'
    · rw [atSpace_of_opensOther opens (.inr (.inl colon)), Bool.and_false]
    · rw [beq_false_of_ne colon, Bool.false_and]
  have deeper : indent ≤ (mark.next c).column := by
    rw [Mark.next_of_not_break here]
    exact deep
  rw [List.cons_append, readPlain_char here solid rfl noColon,
    readPlain_append ds c (fun some => absurd rfl some) rfl (fun _ => rfl) bare
      (fun d mem => printable d (List.mem_cons_of_mem c mem))
      (fun d mem => line d (List.mem_cons_of_mem c mem)) (noEdge_tail last) deeper (.inr rfl)]
  simp only [Gap.text, List.reverse_nil, List.nil_append, List.reverse_cons, Mark.after_cons]

/-- A plain scalar ends at the colon of a key. -/
theorem readPlain_colon (space : atSpace cs = true) :
    readPlain false indent out .none mark (':' :: cs) =
      .ok ⟨String.ofList out.reverse, false, ⟨mark, ':' :: cs⟩⟩ := by
  have ends : (':' == ':' && atSpace cs) = true := space
  rw [readPlain, ends]
  rfl

/-- The blanks of a line that is less indented belong to no scalar. -/
theorem readPlain_blanks {n : Nat} {first : Option Char} {more : List Char}
    (visible : ∀ c ∈ rest.head?, isVisible c = true) (start : (mark.column : Int) + n < indent) :
    readPlain false indent out (.breaks first more) mark (blanks n ++ rest) =
      .ok ⟨String.ofList out.reverse, true, ⟨mark.after (blanks n), rest⟩⟩ := by
  induction n generalizing mark with
  | zero =>
    cases rest with
    | nil => rfl
    | cons c cs =>
      obtain ⟨line, solid, -, -⟩ := isVisible_iff.mp (visible c rfl)
      have ends : endsAfterGap false indent (.breaks first more) mark (c :: cs) = true := by
        have reached : (mark.column : Int) < indent := by simpa using start
        simp [endsAfterGap, reached]
      show readPlain false indent out (.breaks first more) mark (c :: cs) = _
      rw [readPlain, line, solid, ends]
      rfl
  | succ n ih =>
    have next : mark.next ' ' = ⟨_, _, _⟩ := Mark.next_of_not_break rfl
    have further : ((mark.next ' ').column : Int) + n < indent := by
      rw [next]
      show ((mark.column + 1 : Nat) : Int) + n < indent
      omega
    show readPlain false indent out (.breaks first more) mark (' ' :: (blanks n ++ rest)) = _
    rw [readPlain, show isBreak ' ' = false from rfl, show isBlank ' ' = true from rfl]
    simp only [Bool.false_eq_true, ↓reduceIte, Gap.addBlank]
    rw [if_neg (by simp)]
    exact ih further

theorem readPlain_key (plain : allowsPlain cs = true) (space : atSpace rest = true)
    (deep : indent ≤ mark.column + 1) :
    readPlain false indent [] .none mark (cs ++ ':' :: rest) =
      .ok ⟨String.ofList cs, false, ⟨mark.after cs, ':' :: rest⟩⟩ := by
  rw [readPlain_plain plain deep, readPlain_colon space, List.reverse_reverse]

theorem readPlain_line {column n : Nat} {text : List Char} (plain : allowsPlain cs = true)
    (next : NextLine column text n rest) (deep : (column : Int) < mark.column) :
    readPlain false (column + 1) [] .none mark (cs ++ '\n' :: text) =
      .ok ⟨String.ofList cs, true, ⟨((mark.after cs).next '\n').after (blanks n), rest⟩⟩ := by
  have start : (((mark.after cs).next '\n').column : Int) + n < (column : Int) + 1 := by
    have := next.le
    rw [Mark.next_of_break rfl]
    show ((0 : Nat) : Int) + n < _
    omega
  rw [readPlain_plain plain (by omega), next.text_eq, readPlain,
    show isBreak '\n' = true from rfl]
  show readPlain false (column + 1) cs.reverse (.breaks (some '\n') []) _ (blanks n ++ rest) = _
  rw [readPlain_blanks next.visible start, List.reverse_reverse]

namespace Scanner

theorem takePlain_eq {s : Scanner} {read : PlainRead} (outside : s.outerStarts = [])
    (unkeyed : s.keyStart = none)
    (reads : readPlain false (s.indent + 1) [] .none s.cursor.mark s.cursor.rest = .ok read) :
    s.takePlain = .ok (((s.saved.allowKey read.broken).emit (.scalar .plain read.text)).moveTo
      read.cursor) := by
  have flow : s.saved.inFlow = false := by rw [inFlow, saved_outerStarts, outside]; rfl
  rw [takePlain, saveKey_eq unkeyed]
  show (readPlain s.saved.inFlow (s.saved.indent + 1) [] .none s.saved.cursor.mark
    s.saved.cursor.rest >>= _) = _
  rw [flow, saved_indent, saved_cursor, reads]
  rfl

/-- A text without quotes in front of the colon that makes it a key. -/
theorem takesScalar_plain (plain : allowsPlain cs = true) (space : atSpace rest = true) :
    TakesScalar cs .plain (String.ofList cs) (':' :: rest) := by
  obtain ⟨some, -⟩ := allowsPlain_iff.mp plain
  obtain ⟨c, ds, rfl⟩ := List.exists_cons_of_ne_nil some
  have ends : EndsPlain (':' :: rest) := ⟨_, _, rfl, .inr ⟨rfl, space⟩⟩
  refine ⟨c, ds, rfl, (takeToken_plain (s := { cursor := default }) plain ends rfl).1,
    fun s outside unkeyed text deep => ?_⟩
  have reads := readPlain_key plain space (Int.add_le_add_right deep 1)
  rw [← text] at reads
  rw [(takeToken_plain plain ends outside).2, takePlain_eq outside unkeyed reads]

/-- A text without quotes at the end of its line. -/
theorem takesLines_plain {column n : Nat} {text : List Char} (plain : allowsPlain cs = true)
    (next : NextLine column text n rest) :
    TakesLines (cs ++ '\n' :: text) .plain (String.ofList cs) column n rest := by
  obtain ⟨some, -⟩ := allowsPlain_iff.mp plain
  obtain ⟨c, ds, rfl⟩ := List.exists_cons_of_ne_nil some
  have ends : EndsPlain ('\n' :: text) := ⟨_, _, rfl, .inl rfl⟩
  refine ⟨c, ds ++ '\n' :: text, rfl, (takeToken_plain (s := { cursor := default }) plain ends rfl).1,
    ?_, fun s outside unkeyed at_text at_indent deep => ?_⟩
  · rw [next.text_eq]
    simp only [List.length_append, List.length_cons]
    omega
  refine ⟨s.saved.keyStart, ((s.cursor.mark.after (c :: ds)).next '\n').after (blanks n), ?_,
    .inr rfl, ?_, ?_⟩
  · have reads := readPlain_line plain next deep
    rw [← at_text, ← at_indent] at reads
    rw [(takeToken_plain plain ends outside).2, takePlain_eq outside unkeyed reads, ← saved_eq]
  · rw [Mark.after_blanks, Mark.next_of_break rfl]
    exact Nat.lt_succ_of_le (Mark.line_le_after _ _)
  · rw [Mark.after_blanks, Mark.next_of_break rfl]
    exact Nat.zero_add n

end Scanner

end Pipework.Yaml
