import Mathlib.Algebra.Group.Nat.Defs
import Pipework.Proofs.Yaml.Scalars

/-!
# Texts between quotes

Between quotes, blanks are kept where they are followed by more on their line, and line ends are kept
but for line feeds. What has line ends is put in single quotes only if they are of another kind and no
blanks are next to them; the double quotes have no line ends at all.
-/

namespace Pipework.Yaml

variable {quote c d : Char} {cs out rest : List Char} {gap : Gap} {mark : Mark}

/-! ## Single steps -/

/-- A blank between quotes is kept back until it is known what follows it. -/
theorem readQuoted_blank : readQuoted quote out gap none mark (' ' :: cs) =
    readQuoted quote out (gap.addBlank ' ') none (mark.next ' ') cs := by
  rw [readQuoted.eq_def]
  rfl

/-- So is the end of a line. -/
theorem readQuoted_break (isEnd : isBreak c = true) :
    readQuoted quote out gap none mark (c :: cs) =
      readQuoted quote out (gap.addBreak c) none (mark.next c) cs := by
  rw [readQuoted.eq_def]
  simp only [isEnd]
  rfl

/-- A document can neither begin nor end within a line. -/
theorem atDocumentMark_inside (inside : 0 < mark.column) : atDocumentMark mark cs = false := by
  rw [atDocumentMark, beq_false_of_ne (Nat.ne_of_gt inside), Bool.false_and]

/-- Any other character is taken as it stands, with the blanks kept back before it. -/
theorem readQuoted_char (line : isBreak c = false) (solid : isBlank c = false)
    (inside : 0 < mark.column) (noQuote : c ≠ quote) (noEscape : c ≠ '\\' ∨ quote = '\'') :
    readQuoted quote out gap none mark (c :: cs) =
      readQuoted quote (c :: (gap.text.reverse ++ out)) .none none (mark.next c) cs := by
  have noEscape : (c == '\\' && quote == '"') = false := by
    rcases noEscape with other | rfl
    · rw [beq_false_of_ne other, Bool.false_and]
    · exact Bool.and_false _
  rw [readQuoted.eq_def]
  simp only [line, solid, atDocumentMark_inside inside, beq_false_of_ne noQuote, noEscape]
  rfl

/-- Two single quotes stand for one. -/
theorem readQuoted_twice (inside : 0 < mark.column) :
    readQuoted '\'' out gap none mark ('\'' :: '\'' :: cs) =
      readQuoted '\'' ('\'' :: (gap.text.reverse ++ out)) .none none (mark.after ['\'', '\''])
        cs := by
  rw [readQuoted.eq_def]
  simp only [show isBreak '\'' = false from rfl, show isBlank '\'' = false from rfl,
    atDocumentMark_inside inside]
  rfl

/-- The closing quote ends the text, with the gap in front of it. -/
theorem readQuoted_end (kind : quote = '\'' ∨ quote = '"') (inside : 0 < mark.column)
    (closes : ∀ c ∈ rest.head?, c ≠ '\'') :
    readQuoted quote out gap none mark (quote :: rest) =
      .ok (String.ofList (gap.text.reverse ++ out).reverse, ⟨mark.next quote, rest⟩) := by
  have plain : isBreak quote = false ∧ isBlank quote = false := by
    rcases kind with rfl | rfl <;> exact ⟨rfl, rfl⟩
  rw [readQuoted.eq_def]
  simp only [plain.1, plain.2, atDocumentMark_inside inside, beq_self_eq_true, Bool.false_eq_true,
    ↓reduceIte]
  cases rest with
  | nil => rfl
  | cons c cs =>
    have other : c ≠ '\'' := closes c rfl
    split
    · next same => exact absurd (List.cons.inj same).1 other
    · rfl

/-! ## Escapes -/

/-- A letter behind a backslash stands for a character. -/
theorem readQuoted_letter (inside : 0 < mark.column) (line : isBreak d = false)
    (known : unescapes.lookup d = some c) :
    readQuoted '"' out gap none mark ('\\' :: d :: cs) =
      readQuoted '"' (c :: (gap.text.reverse ++ out)) .none none (mark.after ['\\', d]) cs := by
  rw [readQuoted.eq_def]
  simp only [atDocumentMark_inside inside, line, known]
  rfl

/-- Other letters say how many digits follow. -/
theorem readQuoted_width {width : Nat} (inside : 0 < mark.column) (line : isBreak d = false)
    (unknown : unescapes.lookup d = none) (wide : escapeWidth? d = some width) :
    readQuoted '"' out gap none mark ('\\' :: d :: cs) =
      readQuoted '"' (gap.text.reverse ++ out) .none (some (width, 0)) (mark.after ['\\', d])
        cs := by
  rw [readQuoted.eq_def]
  simp only [atDocumentMark_inside inside, line, unknown, wide]
  rfl

/-- Digits to the base sixteen are written in capitals and read back as themselves. -/
theorem hexValue?_toUpper {n : Nat} (digit : n < 16) :
    Json.hexValue? (Nat.digitChar n).toUpper = some n := by
  revert n
  decide

/-- All digits but the last are gathered. -/
theorem readQuoted_digits (width missing n acc : Nat) (more : 0 < missing) (fits : n < 16 ^ width) :
    readQuoted quote out gap (some (width + missing, acc)) mark (hexDigits width n ++ cs) =
      readQuoted quote out gap (some (missing, 16 ^ width * acc + n))
        (mark.after (hexDigits width n)) cs := by
  induction width generalizing n missing cs with
  | zero =>
    have : n = 0 := by simpa using fits
    simp [hexDigits, this]
  | succ width ih =>
    have fits' : n / 16 < 16 ^ width := by
      rw [Nat.pow_succ] at fits
      exact Nat.div_lt_of_lt_mul (by omega)
    have value := hexValue?_toUpper (Nat.mod_lt n (by decide : 0 < 16))
    have two : ¬ missing + 1 ≤ 1 := by omega
    have together : 16 * (16 ^ width * acc + n / 16) + n % 16 = 16 ^ (width + 1) * acc + n := by
      rw [Nat.pow_succ, Nat.mul_add, ← Nat.mul_assoc, Nat.mul_comm 16]
      omega
    rw [hexDigits, List.append_assoc, show width + 1 + missing = width + (missing + 1) by omega,
      ih (missing + 1) (n / 16) (Nat.succ_pos _) fits', List.singleton_append, readQuoted.eq_def]
    simp only [value, if_neg two, together, Mark.after_append, Mark.after_cons, Mark.after_nil]
    rfl

/-- A character is found again by its number. -/
theorem charOf?_toNat (c : Char) : charOf? c.toNat = some c := by
  have valid : c.toNat.isValidChar := c.valid
  rw [charOf?, dif_pos valid]
  rfl

/-- With the last digit, they stand for a character. -/
theorem readQuoted_hex (width : Nat) (fits : c.toNat < 16 ^ (width + 1)) :
    readQuoted quote out .none (some (width + 1, 0)) mark (hexDigits (width + 1) c.toNat ++ cs) =
      readQuoted quote (c :: out) .none none (mark.after (hexDigits (width + 1) c.toNat)) cs := by
  have fits' : c.toNat / 16 < 16 ^ width := by
    rw [Nat.pow_succ] at fits
    exact Nat.div_lt_of_lt_mul (by omega)
  have value := hexValue?_toUpper (Nat.mod_lt c.toNat (by decide : 0 < 16))
  have together : 16 * (16 ^ width * 0 + c.toNat / 16) + c.toNat % 16 = c.toNat := by omega
  rw [hexDigits, List.append_assoc, readQuoted_digits width 1 _ _ Nat.one_pos fits',
    List.singleton_append, readQuoted.eq_def]
  simp only [value, if_pos (Nat.le_refl 1), together, charOf?_toNat, Mark.after_append,
    Mark.after_cons, Mark.after_nil]

/-- How a character is written between double quotes. -/
inductive Escape (c : Char) : List Char → Prop
  | itself (printable : isPrintable c = true) (line : isBreak c = false) (noQuote : c ≠ '"')
      (noEscape : c ≠ '\\') : Escape c [c]
  | letter {d : Char} (known : unescapes.lookup d = some c) (line : isBreak d = false)
      (printable : isPrintable d = true) : Escape c ['\\', d]
  | digits {d : Char} {width : Nat} (unknown : unescapes.lookup d = none) (line : isBreak d = false)
      (printable : isPrintable d = true) (wide : escapeWidth? d = some (width + 1))
      (fits : c.toNat < 16 ^ (width + 1)) :
      Escape c ('\\' :: d :: hexDigits (width + 1) c.toNat)

/-- Every character has an escape that stands for it. -/
theorem escape_escaped (c : Char) : Escape c (escaped c) := by
  have letters : ∀ p ∈ escapes, unescapes.lookup p.2 = some p.1 ∧ isBreak p.2 = false ∧
      isPrintable p.2 = true := by decide
  unfold escaped
  split
  · next plain =>
    simp only [Bool.and_eq_true, Bool.not_eq_true', bne_iff_ne] at plain
    exact .itself plain.1.1.1 plain.1.1.2 plain.1.2 plain.2
  · split
    · next letter found =>
      obtain ⟨front, behind, split, -⟩ := List.lookup_eq_some_iff.mp found
      obtain ⟨known, line, printable⟩ := letters (c, letter) (by rw [split]; simp)
      exact .letter known line printable
    · split
      · next small => exact .digits (by decide) rfl rfl rfl (Nat.lt_succ_of_le small)
      · split
        · next small => exact .digits (by decide) rfl rfl rfl (Nat.lt_succ_of_le small)
        · have small : c.toNat < 0x110000 := c.valid.elim (fun low => Nat.lt_trans low (by decide)) (·.2)
          exact .digits (by decide) rfl rfl rfl (Nat.lt_trans small (by decide))

theorem printable_hexDigits (width n : Nat) :
    ∀ d ∈ hexDigits width n, isPrintable d = true ∧ isBreak d = false := by
  have digits : ∀ k < 16, isPrintable (Nat.digitChar k).toUpper = true ∧
      isBreak (Nat.digitChar k).toUpper = false := by decide
  induction width generalizing n with
  | zero => exact nofun
  | succ width ih =>
    intro d mem
    rcases List.mem_append.mp mem with mem | mem
    · exact ih _ d mem
    · rw [List.mem_singleton.mp mem]
      exact digits _ (Nat.mod_lt n (by decide))

/-- An escape is printable, and stands on one line. -/
theorem Escape.printable {text : List Char} (escape : Escape c text) :
    ∀ d ∈ text, isPrintable d = true ∧ isBreak d = false := by
  have backslash : isPrintable '\\' = true ∧ isBreak '\\' = false := by decide
  intro d mem
  cases escape with
  | itself printable line =>
    rw [List.mem_singleton.mp mem]
    exact ⟨printable, line⟩
  | letter known line printable =>
    rcases List.mem_cons.mp mem with rfl | mem
    · exact backslash
    · rw [List.mem_singleton.mp mem]
      exact ⟨printable, line⟩
  | digits unknown line printable =>
    rcases List.mem_cons.mp mem with rfl | mem
    · exact backslash
    · rcases List.mem_cons.mp mem with rfl | mem
      · exact ⟨printable, line⟩
      · exact printable_hexDigits _ _ d mem

/-- Escapes are one line of characters that can be printed. -/
theorem printable_escaped : ∀ d ∈ cs.flatMap escaped, isPrintable d = true ∧ isBreak d = false := by
  intro d mem
  obtain ⟨c, -, mem⟩ := List.mem_flatMap.mp mem
  exact (escape_escaped c).printable d mem

/-- On one line, marks stay behind the first column. -/
theorem inside_after {text : List Char} (inside : 0 < mark.column)
    (line : ∀ d ∈ text, isBreak d = false) : 0 < (mark.after text).column := by
  rw [Mark.after_of_not_break line]
  exact Nat.add_pos_left inside _

/-- An escape is read as its character. -/
theorem Escape.reads {text : List Char} (escape : Escape c text) (inside : 0 < mark.column)
    (unbroken : gap.isBroken = false) :
    ∃ out' gap', readQuoted '"' out gap none mark (text ++ rest) =
        readQuoted '"' out' gap' none (mark.after text) rest ∧
      gap'.text.reverse ++ out' = c :: (gap.text.reverse ++ out) ∧ gap'.isBroken = false := by
  have further : 0 < (mark.next '\\').column := by
    rw [Mark.next_of_not_break rfl]
    exact Nat.succ_pos _
  cases escape with
  | itself printable line noQuote noEscape =>
    by_cases blank : c = ' '
    · subst blank
      refine ⟨out, gap.addBlank ' ', readQuoted_blank, ?_, Gap.isBroken_addBlank.trans unbroken⟩
      rw [Gap.text_addBlank unbroken, List.reverse_append]
      rfl
    · have solid : isBlank c = false := by
        rw [isBlank_of_isPrintable printable]
        exact beq_false_of_ne blank
      exact ⟨_, .none, readQuoted_char line solid inside noQuote (.inl noEscape), rfl, rfl⟩
  | letter known line => exact ⟨_, .none, readQuoted_letter inside line known, rfl, rfl⟩
  | digits unknown line printable wide fits =>
    refine ⟨_, .none, ?_, rfl, rfl⟩
    rw [List.cons_append, List.cons_append, readQuoted_width inside line unknown wide,
      readQuoted_hex _ fits]
    rfl

/-- The escapes of a text are read as the text. -/
theorem readQuoted_escaped (inside : 0 < mark.column) (unbroken : gap.isBroken = false) :
    ∃ out' gap', readQuoted '"' out gap none mark (cs.flatMap escaped ++ rest) =
        readQuoted '"' out' gap' none (mark.after (cs.flatMap escaped)) rest ∧
      gap'.text.reverse ++ out' = cs.reverse ++ (gap.text.reverse ++ out) := by
  induction cs generalizing out gap mark with
  | nil => exact ⟨out, gap, rfl, rfl⟩
  | cons c cs ih =>
    have line := fun d mem => ((escape_escaped c).printable d mem).2
    obtain ⟨out', gap', here, so_far, unbroken⟩ := (escape_escaped c).reads inside unbroken
    obtain ⟨last, final, more, all⟩ := ih (inside_after inside line) unbroken
    refine ⟨last, final, ?_, ?_⟩
    · rw [List.flatMap_cons, List.append_assoc, here, more, Mark.after_append]
    · rw [all, so_far, List.reverse_cons, List.append_assoc]
      rfl

/-- A text in double quotes is read. -/
theorem readQuoted_double (inside : 0 < mark.column) (closes : ∀ c ∈ rest.head?, c ≠ '\'') :
    readQuoted '"' [] .none none mark (cs.flatMap escaped ++ '"' :: rest) =
      .ok (String.ofList cs, ⟨mark.after (cs.flatMap escaped ++ ['"']), rest⟩) := by
  have line : ∀ d ∈ cs.flatMap escaped, isBreak d = false := fun d mem => (printable_escaped d mem).2
  obtain ⟨out, gap, read, text⟩ : ∃ out gap,
      readQuoted '"' [] .none none mark (cs.flatMap escaped ++ '"' :: rest) = _ ∧ _ :=
    readQuoted_escaped inside rfl
  rw [read, readQuoted_end (.inr rfl) (inside_after inside line) closes, text, Mark.after_append]
  simp only [Gap.text, List.reverse_nil, List.append_nil, List.reverse_reverse, Mark.after_cons,
    Mark.after_nil]

/-! ## Single quotes -/

/-- A character between single quotes. -/
def twice (c : Char) : List Char :=
  if c == '\'' then ['\'', '\''] else [c]

theorem Gap.text_breaks {first : Char} {more : List Char} (other : first ≠ '\n') :
    (Gap.breaks (some first) more).text = first :: more := by
  unfold Gap.text
  split <;> simp_all

/-- What lies between the words that have been read and the text that follows. The blanks that indent
a line mean nothing, so a line has none of its own at its two ends. -/
inductive Between : (fresh : Bool) → Gap → (cs : List Char) → Prop
  | nothing {cs : List Char} : Between false .none cs
  | blanks {bs cs : List Char} (noBreak : ∀ c ∈ cs.head?, isBreak c = false) :
      Between false (.blanks bs) cs
  | lines {first : Char} {more cs : List Char} (other : first ≠ '\n')
      (noBlank : ∀ c ∈ cs.head?, c ≠ ' ') : Between true (.breaks (some first) more) cs

/-- The blanks that indent a line are passed over. -/
theorem readQuoted_indent {first : Option Char} {more : List Char} (n : Nat) :
    readQuoted quote out (.breaks first more) none mark (blanks n ++ cs) =
      readQuoted quote out (.breaks first more) none (mark.after (blanks n)) cs := by
  induction n generalizing mark with
  | zero => rfl
  | succ n ih =>
    show readQuoted quote out (.breaks first more) none mark (' ' :: (blanks n ++ cs)) = _
    rw [readQuoted_blank]
    exact ih

/-- What is put in front of a character of a line. -/
def lead (indent : Nat) (fresh : Bool) : List Char :=
  if fresh then blanks indent else []

/-- Behind its indentation, a word stands within its line. -/
theorem inside_lead {fresh : Bool} {indent : Nat} (inside : fresh = false → 0 < mark.column)
    (deep : 0 < indent) : 0 < (mark.after (lead indent fresh)).column := by
  cases fresh with
  | false => exact inside rfl
  | true =>
    show 0 < (mark.after (blanks indent)).column
    rw [Mark.after_blanks]
    exact Nat.add_pos_right _ deep

/-- The blanks at the start of a line are read over. -/
theorem readQuoted_lead {fresh : Bool} {indent : Nat} (between : Between fresh gap cs) :
    readQuoted quote out gap none mark (lead indent fresh ++ rest) =
      readQuoted quote out gap none (mark.after (lead indent fresh)) rest := by
  cases between with
  | nothing => rfl
  | blanks => rfl
  | lines => exact readQuoted_indent indent

theorem eq_of_mem_twice (mem : d ∈ twice c) : d = c := by
  unfold twice at mem
  split at mem
  · next same =>
    rw [eq_of_beq same]
    simpa using mem
  · exact List.mem_singleton.mp mem

theorem indented_twice_break {indent : Nat} {fresh : Bool} (isEnd : isBreak c = true) :
    indented indent fresh ((c :: cs).flatMap twice) =
      c :: indented indent true (cs.flatMap twice) := by
  have other : (c == '\'') = false := by
    refine beq_false_of_ne ?_
    rintro rfl
    cases isEnd
  rw [List.flatMap_cons, twice, other]
  show indented indent fresh (c :: cs.flatMap twice) = _
  rw [indented, isEnd]
  rfl

/-- A character of a line stands behind what the line begins with. -/
theorem indented_twice_char {indent : Nat} {fresh : Bool} (line : isBreak c = false) :
    indented indent fresh ((c :: cs).flatMap twice) =
      lead indent fresh ++ (twice c ++ indented indent false (cs.flatMap twice)) := by
  rw [List.flatMap_cons, twice]
  split
  · next same =>
    obtain rfl := eq_of_beq same
    rfl
  · show indented indent fresh (c :: cs.flatMap twice) = _
    rw [indented, line]
    rfl

theorem hasPair_cons {p q : Char → Bool} (none : hasPair p q (c :: cs) = false) :
    hasPair p q cs = false ∧ ∀ d ∈ cs.head?, (p c && q d) = false := by
  cases cs with
  | nil => exact ⟨rfl, nofun⟩
  | cons d ds =>
    obtain ⟨here, more⟩ := Bool.or_eq_false_iff.mp none
    refine ⟨more, ?_⟩
    rintro _ ⟨⟩
    exact here

/-- What a text has that stands in single quotes, if no line feed is in it. -/
structure FitsSingle (cs : List Char) : Prop where
  printable : ∀ c ∈ cs, isPrintable c = true
  noFeed : ∀ c ∈ cs, c ≠ '\n'
  noIndent : hasPair isBreak (· == ' ') cs = false
  noTrail : hasPair (· == ' ') isBreak cs = false

theorem FitsSingle.tail (fits : FitsSingle (c :: cs)) : FitsSingle cs where
  printable d mem := fits.printable d (List.mem_cons_of_mem c mem)
  noFeed d mem := fits.noFeed d (List.mem_cons_of_mem c mem)
  noIndent := (hasPair_cons fits.noIndent).1
  noTrail := (hasPair_cons fits.noTrail).1

/-- One character between single quotes, with the indentation in front of it. -/
theorem readQuoted_twice_char {fresh : Bool} {indent : Nat} (between : Between fresh gap (c :: cs))
    (inside : fresh = false → 0 < mark.column) (deep : 0 < indent) (line : isBreak c = false)
    (fits : FitsSingle (c :: cs)) :
    ∃ out' gap', readQuoted '\'' out gap none mark (lead indent fresh ++ (twice c ++ rest)) =
        readQuoted '\'' out' gap' none (mark.after (lead indent fresh ++ twice c)) rest ∧
      gap'.text.reverse ++ out' = c :: (gap.text.reverse ++ out) ∧ Between false gap' cs := by
  have further : 0 < (mark.after (lead indent fresh)).column := inside_lead inside deep
  rw [readQuoted_lead between, Mark.after_append]
  by_cases blank : c = ' '
  · subst blank
    have noBreak : ∀ d ∈ cs.head?, isBreak d = false := (hasPair_cons fits.noTrail).2
    have read : readQuoted '\'' out gap none (mark.after (lead indent fresh)) (twice ' ' ++ rest) =
        readQuoted '\'' out (gap.addBlank ' ') none _ rest := readQuoted_blank
    cases between with
    | nothing => exact ⟨out, .blanks [' '], read, rfl, .blanks noBreak⟩
    | @blanks bs =>
      refine ⟨out, .blanks (bs ++ [' ']), read, ?_, .blanks noBreak⟩
      simp only [Gap.text, List.reverse_append, List.reverse_cons, List.reverse_nil,
        List.nil_append, List.cons_append]
    | lines _ noBlank => exact absurd rfl (noBlank ' ' rfl)
  · by_cases same : c = '\''
    · subst same
      exact ⟨_, .none, readQuoted_twice further, rfl, .nothing⟩
    · have solid : isBlank c = false := by
        rw [isBlank_of_isPrintable (fits.printable c List.mem_cons_self)]
        exact beq_false_of_ne blank
      rw [twice, beq_false_of_ne same]
      exact ⟨_, .none, readQuoted_char line solid further same (.inr rfl), rfl, .nothing⟩

/-- The end of a line between single quotes. -/
theorem readQuoted_lineEnd {fresh : Bool} (between : Between fresh gap (c :: cs))
    (isEnd : isBreak c = true) (fits : FitsSingle (c :: cs)) :
    (gap.addBreak c).text = gap.text ++ [c] ∧ Between true (gap.addBreak c) cs := by
  have feed : c ≠ '\n' := fits.noFeed c List.mem_cons_self
  have noBlank : ∀ d ∈ cs.head?, d ≠ ' ' := by
    intro d mem
    have := (hasPair_cons fits.noIndent).2 d mem
    rw [isEnd, Bool.true_and] at this
    exact ne_of_beq_false this
  cases between with
  | nothing => exact ⟨Gap.text_breaks feed, .lines feed noBlank⟩
  | blanks noBreak => exact absurd ((noBreak c rfl).symm.trans isEnd) Bool.false_ne_true
  | @lines first more _ other =>
    refine ⟨?_, .lines other noBlank⟩
    rw [Gap.addBreak, Gap.text_breaks other, Gap.text_breaks other]
    rfl

/-- Does a line begin behind the text? -/
def endsFresh (fresh : Bool) (cs : List Char) : Bool :=
  (cs.getLast?.map isBreak).getD fresh

theorem endsFresh_cons {fresh : Bool} : endsFresh fresh (c :: cs) = endsFresh (isBreak c) cs := by
  cases cs with
  | nil => rfl
  | cons d ds =>
    rw [endsFresh, endsFresh, List.getLast?_cons_cons, List.getLast?_cons]
    rfl

/-- Lines between single quotes are read as they are, up to the closing quote. -/
theorem readQuoted_lines {fresh : Bool} {indent : Nat} (between : Between fresh gap cs)
    (inside : fresh = false → 0 < mark.column) (deep : 0 < indent) (fits : FitsSingle cs)
    (closes : ∀ c ∈ rest.head?, c ≠ '\'') :
    readQuoted '\'' out gap none mark (indented indent fresh (cs.flatMap twice) ++
        (lead indent (endsFresh fresh cs) ++ '\'' :: rest)) =
      .ok (String.ofList ((gap.text.reverse ++ out).reverse ++ cs),
        ⟨mark.after (indented indent fresh (cs.flatMap twice) ++
          (lead indent (endsFresh fresh cs) ++ ['\''])), rest⟩) := by
  induction cs generalizing fresh gap mark out with
  | nil =>
    show readQuoted '\'' out gap none mark (lead indent fresh ++ '\'' :: rest) = _
    rw [readQuoted_lead between, readQuoted_end (.inl rfl) (inside_lead inside deep) closes,
      List.append_nil]
    show _ = Except.ok (_, (⟨mark.after (lead indent fresh ++ ['\'']), rest⟩ : Cursor))
    rw [Mark.after_append]
    rfl
  | cons c cs ih =>
    rw [endsFresh_cons]
    cases isEnd : isBreak c with
    | true =>
      obtain ⟨text, between⟩ := readQuoted_lineEnd between isEnd fits
      rw [indented_twice_break isEnd, List.cons_append, readQuoted_break isEnd,
        ih between nofun fits.tail, text]
      simp only [List.reverse_append, List.reverse_cons, List.reverse_nil, List.nil_append,
        List.reverse_reverse, List.append_assoc, List.cons_append, Mark.after_cons]
    | false =>
      obtain ⟨out', gap', here, text, between'⟩ : ∃ out' gap',
          readQuoted '\'' out gap none mark (lead indent fresh ++ (twice c ++
            (indented indent false (cs.flatMap twice) ++
              (lead indent (endsFresh false cs) ++ '\'' :: rest)))) = _ ∧ _ :=
        readQuoted_twice_char between inside deep isEnd fits
      have further : 0 < (mark.after (lead indent fresh ++ twice c)).column := by
        rw [Mark.after_append]
        refine inside_after (inside_lead inside deep) fun d mem => ?_
        rw [eq_of_mem_twice mem, isEnd]
      rw [indented_twice_char isEnd, List.append_assoc, List.append_assoc, here,
        ih between' (fun _ => further) fits.tail, text]
      simp only [List.reverse_append, List.reverse_cons, List.nil_append, List.reverse_reverse,
        List.append_assoc, List.cons_append, Mark.after_append]

/-- What stands between single quotes: the lines with their quotes doubled, and the start of the
last line. -/
theorem singleBody_eq (indent : Nat) (cs : List Char) : singleBody indent cs =
    indented indent false (cs.flatMap twice) ++ lead indent (endsFresh false cs) := by
  have fresh : endsFresh false cs = cs.getLast?.any isBreak := by
    unfold endsFresh
    cases cs.getLast? <;> rfl
  rw [fresh]
  unfold singleBody lead
  split
  · rfl
  · exact (List.append_nil _).symm

/-- A text in single quotes is read. -/
theorem readQuoted_single {indent : Nat} (deep : 0 < indent) (inside : 0 < mark.column)
    (fits : FitsSingle cs) (closes : ∀ c ∈ rest.head?, c ≠ '\'') :
    readQuoted '\'' [] .none none mark (singleBody indent cs ++ '\'' :: rest) =
      .ok (String.ofList cs, ⟨mark.after (singleBody indent cs ++ ['\'']), rest⟩) := by
  rw [singleBody_eq, List.append_assoc, readQuoted_lines .nothing (fun _ => inside) deep fits closes,
    List.append_assoc]
  rfl

/-! ## As scalars -/

namespace Scanner

theorem takeToken_quoted (kind : quote = '\'' ∨ quote = '"') (s : Scanner) (cs : List Char) :
    s.takeToken quote cs = s.takeQuoted quote := by
  rcases kind with rfl | rfl <;> simp [takeToken, isDocumentMark_of_ne]

/-- What a reader reads between quotes is taken as a scalar. -/
theorem takesScalar_quoted {body : List Char} {content : String}
    (kind : quote = '\'' ∨ quote = '"')
    (reads : ∀ mark : Mark, 0 < mark.column →
      readQuoted quote [] .none none mark (body ++ rest) =
        .ok (content, ⟨mark.after body, rest⟩)) :
    TakesScalar (quote :: body) (if quote == '"' then .double else .single) content rest := by
  have visible : isVisible quote = true ∧ isBreak quote = false := by
    rcases kind with rfl | rfl <;> decide
  refine ⟨quote, body, rfl, visible.1, fun s _ unkeyed text _ => ?_⟩
  have inside : 0 < (s.cursor.mark.next quote).column := by
    rw [Mark.next_of_not_break visible.2]
    exact Nat.succ_pos _
  have skipped : s.saved.cursor.skip 1 = ⟨s.cursor.mark.next quote, body ++ rest⟩ := by
    rw [saved_cursor]
    exact skip_one text
  rw [takeToken_quoted kind, takeQuoted, takeNode, saveKey_eq unkeyed]
  simp only [bind, Except.bind, takeBy, allowKey, skipped, reads _ inside]
  rfl

/-- A text in single quotes. -/
theorem takesScalar_single {indent : Nat} (deep : 0 < indent) (fits : FitsSingle cs)
    (closes : ∀ c ∈ rest.head?, c ≠ '\'') :
    TakesScalar ('\'' :: singleBody indent cs ++ ['\'']) .single (String.ofList cs) rest := by
  rw [List.cons_append]
  refine takesScalar_quoted (.inl rfl) fun mark inside => ?_
  rw [List.append_assoc]
  exact readQuoted_single deep inside fits closes

/-- A text in double quotes. -/
theorem takesScalar_double (closes : ∀ c ∈ rest.head?, c ≠ '\'') :
    TakesScalar ('"' :: cs.flatMap escaped ++ ['"']) .double (String.ofList cs) rest := by
  rw [List.cons_append]
  refine takesScalar_quoted (.inr rfl) fun mark inside => ?_
  rw [List.append_assoc]
  exact readQuoted_double inside closes

end Scanner

end Pipework.Yaml
