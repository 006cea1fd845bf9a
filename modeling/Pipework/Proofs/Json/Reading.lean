import Pipework.Json.Printer
import Pipework.Json.Record
import Pipework.Proofs.Number.Numeral
import Pipework.Proofs.Outcome
import Pipework.Proofs.Text.Span

/-!
# Readers and what they read

`Reads read text a` says that a reader takes a text for `a` wherever the text may stand: behind any
blanks, and in front of anything that does not go on with a number. This is the form in which what
is read inside a list, an object or a record enters what is said of the whole.

The simple texts are words and texts in quotes. A text in quotes is read character by character, as
it was escaped.
-/

namespace Pipework.Json

open Text (StopsAt)

/-! ## Readers -/

/-- A character that may stand in a number behind its first digit. -/
def goesOnNumber (c : Char) : Bool :=
  isAsciiDigit c || c == '.' || c == 'e' || c == 'E'

/-- A text that a reader takes for a value. It is told from a blank and from the end of a list by its
first character. -/
structure Reads {α : Type} (read : Reader α) (text : List Char) (a : α) : Prop where
  begins : ∃ c cs, text = c :: cs ∧ isBlank c = false ∧ c ≠ ']'
  reads : ∀ blanks : List Char, (∀ c ∈ blanks, isBlank c = true) → ∀ rest : List Char,
    StopsAt goesOnNumber rest → read (blanks ++ (text ++ rest)) = .ok (a, rest)

section

variable {α : Type} {read : Reader α} {text rest : List Char} {a : α} {c : Char}

/-- The text is read where there are no blanks. -/
theorem Reads.here (reads : Reads read text a) (stop : StopsAt goesOnNumber rest) :
    read (text ++ rest) = .ok (a, rest) :=
  reads.reads [] (fun _ mem => nomatch mem) rest stop

/-- The text is read where there is nothing else. -/
theorem Reads.whole (reads : Reads read text a) : readWhole read text = .ok a := by
  have here := reads.here Text.stopsAt_nil
  rw [List.append_nil] at here
  exact Outcome.bind_eq_ok.mpr ⟨_, here, rfl⟩

/-- Behind blanks is what they are in front of. -/
theorem skipBlanks_blanks {blanks : List Char} (all : ∀ c ∈ blanks, isBlank c = true)
    (other : isBlank c = false) (cs : List Char) : skipBlanks (blanks ++ c :: cs) = c :: cs :=
  Text.dropWhile_span all (Text.stopsAt_cons other)

theorem skipBlanks_cons (other : isBlank c = false) (cs : List Char) :
    skipBlanks (c :: cs) = c :: cs :=
  List.dropWhile_cons_of_neg (Bool.not_eq_true _ ▸ other)

theorem isBlank_of_mem_newLine {level : Nat} (mem : c ∈ newLine level) : isBlank c = true := by
  rcases List.mem_cons.mp mem with rfl | mem
  · rfl
  · rw [List.eq_of_mem_replicate mem]
    rfl

end

/-! ## Values -/

/-- The reader of a value looks inside or not. -/
theorem exists_inside (depth : Nat) : ∃ inside, readValue depth = readValueWith inside := by
  cases depth with
  | zero => exact ⟨none, rfl⟩
  | succ depth => exact ⟨some (readValue depth), rfl⟩

/-- What is read as a value whether or not the reader looks inside is what the whole text denotes. -/
theorem parse?_of_reads {s : String} {v : Json}
    (reads : ∀ inside, Reads (readValueWith inside) s.toList v) : parse? s = some v := by
  obtain ⟨inside, read⟩ := exists_inside maxDepth
  rw [parse?, parse, read, (reads inside).whole]
  rfl

/-! ## Words -/

/-- A word is read behind its first letter. -/
theorem readWord_append (word rest : List Char) : readWord word (word ++ rest) = .ok rest := by
  induction word with
  | nil => rfl
  | cons w ws ih =>
    rw [List.cons_append, readWord, if_pos rfl]
    exact ih

/-! ## Texts in quotes -/

/-- The digit of a small number has it as its value. -/
theorem hexValue?_digitChar {d : Nat} (small : d < 16) : hexValue? d.digitChar = some d := by
  have all : ∀ d < 16, hexValue? d.digitChar = some d := by decide
  exact all d small

/-- The escape of a control character is read as that character. -/
theorem readUnicode_control {c : Char} (control : c.toNat < 0x20) (rest : List Char) :
    readUnicode ('0' :: '0' :: hexDigit (c.toNat / 16) :: hexDigit (c.toNat % 16) :: rest) =
      .ok (c, rest) := by
  have high := hexValue?_digitChar (d := c.toNat / 16) (by omega)
  have low := hexValue?_digitChar (d := c.toNat % 16) (by omega)
  have zero : hexValue? '0' = some 0 := rfl
  have value : ((0 * 16 + 0) * 16 + c.toNat / 16) * 16 + c.toNat % 16 = c.toNat := by omega
  have read : readHex ('0' :: '0' :: hexDigit (c.toNat / 16) :: hexDigit (c.toNat % 16) :: rest) =
      .ok (c.toNat, rest) := by
    simp only [readHex, hexDigit, zero, high, low, value]
  refine Outcome.bind_eq_ok.mpr ⟨_, read, ?_⟩
  have noLow : (decide (0xDC00 ≤ c.toNat) && decide (c.toNat ≤ 0xDFFF)) = false := by
    rw [decide_eq_false (by omega), Bool.false_and]
  have noHigh : (decide (c.toNat < 0xD800) || decide (0xDBFF < c.toNat)) = true := by
    rw [decide_eq_true (by omega), Bool.true_or]
  simp only [noLow, noHigh, Bool.false_eq_true, ↓reduceIte, Char.ofNat_toNat]

section

variable {fuel : Nat} {c : Char} {cs s rest : List Char}

/-- An escape is read as one character. -/
theorem readChars_escape {cs' : List Char} (escape : readEscape cs = .ok (c, cs'))
    (behind : readChars fuel cs' = .ok (s, rest)) :
    readChars (fuel + 1) ('\\' :: cs) = .ok (c :: s, rest) := by
  rw [readChars]
  refine Outcome.bind_eq_ok.mpr ⟨_, escape, ?_⟩
  exact Outcome.bind_eq_ok.mpr ⟨_, behind, rfl⟩

/-- A character without a meaning of its own is read as it is. -/
theorem readChars_plain (quote : c ≠ '"') (slash : c ≠ '\\') (visible : ¬ c.toNat < 0x20)
    (behind : readChars fuel cs = .ok (s, rest)) :
    readChars (fuel + 1) (c :: cs) = .ok (c :: s, rest) := by
  rw [readChars, if_neg visible]
  · exact Outcome.bind_eq_ok.mpr ⟨_, behind, rfl⟩
  · exact quote
  · exact slash

/-- A character is read as it was escaped. -/
theorem readChars_escapeChar (behind : readChars fuel cs = .ok (s, rest)) :
    readChars (fuel + 1) (escapeChar c ++ cs) = .ok (c :: s, rest) := by
  unfold escapeChar
  split
  next same =>
    subst same
    exact readChars_escape rfl behind
  split
  next same =>
    subst same
    exact readChars_escape rfl behind
  split
  next same =>
    subst same
    exact readChars_escape rfl behind
  split
  next same =>
    subst same
    exact readChars_escape rfl behind
  split
  next same =>
    subst same
    exact readChars_escape rfl behind
  split
  next same =>
    subst same
    exact readChars_escape rfl behind
  split
  next same =>
    subst same
    exact readChars_escape rfl behind
  split
  next control => exact readChars_escape (readUnicode_control control cs) behind
  next quote slash _ _ _ _ _ visible => exact readChars_plain quote slash visible behind

/-- Every character is written as one at least. -/
theorem length_escapeChar_pos (c : Char) : 0 < (escapeChar c).length := by
  unfold escapeChar
  repeat' split
  all_goals exact Nat.succ_pos _

/-- Escaped characters are read up to the closing quote. -/
theorem readChars_escaped (cs rest : List Char) {fuel : Nat} (enough : cs.length < fuel) :
    readChars fuel (cs.flatMap escapeChar ++ '"' :: rest) = .ok (cs, rest) := by
  induction cs generalizing fuel with
  | nil =>
    obtain ⟨fuel, rfl⟩ := Nat.exists_eq_add_one.mpr enough
    rfl
  | cons c cs ih =>
    obtain ⟨fuel, rfl⟩ := Nat.exists_eq_add_one.mpr (Nat.zero_lt_of_lt enough)
    rw [List.flatMap_cons, List.append_assoc]
    exact readChars_escapeChar (ih (Nat.lt_of_succ_lt_succ enough))

theorem length_le_escaped (cs : List Char) : cs.length ≤ (cs.flatMap escapeChar).length := by
  induction cs with
  | nil => exact Nat.le_refl _
  | cons c cs ih =>
    have := length_escapeChar_pos c
    rw [List.flatMap_cons, List.length_append, List.length_cons]
    omega

/-- A text in quotes is read behind its first quote. -/
theorem readQuoted_escaped (s : String) (rest : List Char) :
    readQuoted (s.toList.flatMap escapeChar ++ '"' :: rest) = .ok (s, rest) := by
  have enough : s.toList.length < (s.toList.flatMap escapeChar ++ '"' :: rest).length + 1 := by
    have := length_le_escaped s.toList
    rw [List.length_append]
    omega
  refine Outcome.bind_eq_ok.mpr ⟨_, readChars_escaped s.toList rest enough, ?_⟩
  show Except.ok (String.ofList s.toList, rest) = _
  rw [String.ofList_toList]

theorem quoted_append (s : String) (rest : List Char) :
    quoted s ++ rest = '"' :: (s.toList.flatMap escapeChar ++ '"' :: rest) := by
  rw [quoted, List.append_assoc]
  rfl

/-- A text in quotes is read as a text. -/
theorem reads_text (s : String) : Reads readText (quoted s) s where
  begins := ⟨'"', _, rfl, rfl, by decide⟩
  reads blanks all rest _ := by
    rw [quoted_append]
    simp only [readText, readTextAs, skipBlanks_blanks (c := '"') all rfl, readQuoted_escaped]

end

/-! ## What may be absent -/

section

variable {α : Type} {read : Reader α}

theorem reads_none : Reads (readOptional read) ['n', 'u', 'l', 'l'] none where
  begins := ⟨'n', _, rfl, rfl, by decide⟩
  reads blanks all rest _ := by
    show readOptional read (blanks ++ 'n' :: (['u', 'l', 'l'] ++ rest)) = _
    simp only [readOptional, skipBlanks_blanks (c := 'n') all rfl]
    exact Outcome.bind_eq_ok.mpr ⟨_, readWord_append _ rest, rfl⟩

/-- Something that is told from `null` by its first character is read as it is. -/
theorem Reads.optional {text : List Char} {a : α} (reads : Reads read text a)
    (other : text.head? ≠ some 'n') : Reads (readOptional read) text (some a) where
  begins := reads.begins
  reads blanks all rest stop := by
    obtain ⟨c, cs, rfl, solid, -⟩ := reads.begins
    have here := reads.here stop
    simp only [List.cons_append] at here ⊢
    simp only [readOptional, skipBlanks_blanks all solid]
    split
    next same => exact absurd (congrArg List.head? same) other
    next => exact Outcome.bind_eq_ok.mpr ⟨_, here, rfl⟩

end

end Pipework.Json
