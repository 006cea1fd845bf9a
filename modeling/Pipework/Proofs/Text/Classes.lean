import Pipework.Script.Scan

/-!
# Characters apart

What starts at a place of a script is decided by one character, so the classes of characters have to
be told apart. They are lists of ranges of code points. Two such lists have nothing in common when
no range of the one overlaps a range of the other, which is a finite check.
-/

namespace Pipework.Text

/-- No range of the one list overlaps a range of the other. -/
def Apart (these those : List (Nat × Nat)) : Prop :=
  ∀ a ∈ these, ∀ b ∈ those, a.2 < b.1 ∨ b.2 < a.1

instance (these those : List (Nat × Nat)) : Decidable (Apart these those) :=
  inferInstanceAs (Decidable (∀ a ∈ these, ∀ b ∈ those, a.2 < b.1 ∨ b.2 < a.1))

/-- A code point is in a list of ranges if it is in one of them. -/
theorem inRanges_eq_true {ranges : List (Nat × Nat)} {code : Nat} :
    inRanges ranges code = true ↔ ∃ range ∈ ranges, range.1 ≤ code ∧ code ≤ range.2 := by
  simp only [inRanges, List.any_eq_true, Bool.and_eq_true, decide_eq_true_eq]

/-- A code point is in at most one of two lists that are apart. -/
theorem inRanges_of_apart {these those : List (Nat × Nat)} {code : Nat} (apart : Apart these those)
    (here : inRanges these code = true) : inRanges those code = false := by
  rw [← Bool.not_eq_true]
  intro there
  obtain ⟨a, memA, lowA, highA⟩ := inRanges_eq_true.mp here
  obtain ⟨b, memB, lowB, highB⟩ := inRanges_eq_true.mp there
  rcases apart a memA b memB with before | before <;> omega

/-- The ASCII digits are the first range of digits. -/
theorem isDigit_of_isAsciiDigit {c : Char} (digit : isAsciiDigit c = true) : isDigit c = true := by
  refine inRanges_eq_true.mpr ⟨(0x0030, 0x0039), List.mem_cons_self, ?_⟩
  simp only [isAsciiDigit, Bool.and_eq_true, decide_eq_true_eq] at digit
  exact digit

end Pipework.Text

namespace Pipework.Script

/-- The characters that a word may begin with, as ranges. -/
def wordStartRanges : List (Nat × Nat) := [(0x41, 0x5a), (0x5f, 0x5f), (0x61, 0x7a)]

/-- A word begins with a letter or an underscore. -/
theorem inRanges_of_isWordStart {c : Char} (start : isWordStart c = true) :
    Text.inRanges wordStartRanges c.toNat = true := by
  rw [Text.inRanges_eq_true]
  have cases : isWordStart c = (decide (c.val ≥ 'A'.val ∧ c.val ≤ 'Z'.val) ||
      (decide (c.val ≥ 'a'.val) && decide (c.val ≤ 'z'.val)) || c == '_') := rfl
  simp only [cases, Bool.or_eq_true, Bool.and_eq_true, decide_eq_true_eq, beq_iff_eq] at start
  rcases start with (⟨low, high⟩ | ⟨low, high⟩) | rfl
  · exact ⟨(0x41, 0x5a), by decide, low, high⟩
  · exact ⟨(0x61, 0x7a), by decide, low, high⟩
  · exact ⟨(0x5f, 0x5f), by decide, by decide, by decide⟩

/-- No word begins with a digit. -/
theorem isDigit_of_isWordStart {c : Char} (start : isWordStart c = true) :
    Text.isDigit c = false :=
  Text.inRanges_of_apart (by decide +kernel) (inRanges_of_isWordStart start)

theorem isBlank_of_isWordStart {c : Char} (start : isWordStart c = true) :
    Text.isBlank c = false :=
  Text.inRanges_of_apart (by decide) (inRanges_of_isWordStart start)

theorem isDigit_of_isBlank {c : Char} (blank : Text.isBlank c = true) : Text.isDigit c = false :=
  Text.inRanges_of_apart (by decide +kernel) blank

theorem isWordStart_of_isBlank {c : Char} (blank : Text.isBlank c = true) :
    isWordStart c = false := by
  rw [← Bool.not_eq_true]
  intro start
  rw [isBlank_of_isWordStart start] at blank
  cases blank

/-- A mark is found by its character only. -/
theorem char_of_ofChar? {c : Char} {m : Mark} (found : Mark.ofChar? c = some m) : m.char = c := by
  unfold Mark.ofChar? at found
  have same := List.find?_some found
  exact eq_of_beq same

/-- A mark is found again by its character. -/
theorem ofChar?_char (m : Mark) : Mark.ofChar? m.char = some m := by
  cases m <;> decide

/-- The characters that decide alone what starts with them: the marks and the quotes. -/
def decisive : List Char :=
  '"' :: '\'' :: Mark.all.map Mark.char

/-- A character of a class without marks and quotes is neither. -/
theorem undecided {c : Char} {p : Char → Bool} (mem : p c = true)
    (outside : decisive.all (fun d => !p d) = true) :
    Mark.ofChar? c = none ∧ ¬ (c = '"' ∨ c = '\'') := by
  have other : c ∉ decisive := by
    intro known
    have := List.all_eq_true.mp outside c known
    rw [mem] at this
    cases this
  constructor
  · cases found : Mark.ofChar? c with
    | none => rfl
    | some m =>
      refine absurd ?_ other
      rw [← char_of_ofChar? found]
      cases m <;> decide
  · rintro (rfl | rfl) <;> exact other (by decide)

end Pipework.Script
