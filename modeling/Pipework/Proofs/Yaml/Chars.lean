import Pipework.Yaml.Printer
import Pipework.Yaml.Scalar

/-!
# Characters of printed documents

A printed document has printable characters only, so that nothing of it is refused or normalized. A
token begins with a visible character, a mark goes on with the characters behind it, and a gap keeps
the blanks between two words.
-/

namespace Pipework.Yaml

/-! ## Classes -/

/-- Can a token begin with the character? -/
def isVisible (c : Char) : Bool :=
  !isSpace c && c != '#' && c != byteOrderMark

variable {c : Char} {cs : List Char}

/-- What is neither white space nor begins a comment, and is no mark in front of the text. -/
theorem isVisible_iff : isVisible c = true ↔
    isBreak c = false ∧ isBlank c = false ∧ c ≠ '#' ∧ c ≠ byteOrderMark := by
  simp only [isVisible, isSpace, Bool.and_eq_true, Bool.not_eq_true', Bool.or_eq_false_iff,
    bne_iff_ne, and_assoc]
  exact and_left_comm

/-- A character of a class is none that the class is without. -/
theorem ne_of_class {p : Char → Bool} {d : Char} (mem : p c = true) (outside : p d = false) :
    c ≠ d := by
  rintro rfl
  rw [mem] at outside
  cases outside

/-- A character outside a class is none of its members. -/
theorem ne_of_not_class {p : Char → Bool} {d : Char} (other : p c = false) (mem : p d = true) :
    c ≠ d := by
  rintro rfl
  rw [mem] at other
  cases other

/-- What the printer leaves as it stands may stand in a document. -/
theorem isAllowed_of_isPrintable (printable : isPrintable c = true) : isAllowed c = true := by
  rw [isAllowed, printable, Bool.or_true]

/-- What is printable has no blanks but the one. -/
theorem isBlank_of_isPrintable (printable : isPrintable c = true) : isBlank c = (c == ' ') := by
  have tab : c ≠ '\t' := ne_of_class printable rfl
  rw [isBlank, beq_false_of_ne tab, Bool.or_false]

/-- A text of printable characters is as it is normalized. -/
theorem normalize_of_printable (printable : ∀ c ∈ cs, isPrintable c = true) :
    normalize cs = cs := by
  induction cs with
  | nil => rfl
  | cons c cs ih =>
    have here := printable c List.mem_cons_self
    have more := ih fun d mem => printable d (List.mem_cons_of_mem _ mem)
    have carriage : c ≠ '\r' := ne_of_class here rfl
    have nextLine : c ≠ '\u0085' := ne_of_class here rfl
    rw [normalize, more]
    · rintro ds rfl
      exact absurd rfl carriage
    · exact carriage
    · exact nextLine

/-- A document mark begins with its character. -/
theorem isDocumentMark_of_ne {mark : Char} (other : c ≠ mark) :
    isDocumentMark mark (c :: cs) = false := by
  match cs with
  | a :: b :: ds => simp only [isDocumentMark, beq_false_of_ne other, Bool.false_and]
  | [_] | [] => rfl

/-- A document mark does not end behind its first character. -/
theorem isDocumentMark_of_space {mark : Char} (solid : isSpace mark = false)
    (space : atSpace cs = true) : isDocumentMark mark (c :: cs) = false := by
  match cs with
  | a :: b :: ds =>
    have other : a ≠ mark := ne_of_class space solid
    simp only [isDocumentMark, beq_false_of_ne other, Bool.and_false, Bool.false_and]
  | [_] | [] => rfl

/-! ## Marks -/

namespace Mark

/-- The mark behind characters. -/
def after (m : Mark) (cs : List Char) : Mark :=
  cs.foldl next m

variable {m : Mark}

@[simp] theorem after_nil : m.after [] = m := rfl

@[simp] theorem after_cons : m.after (c :: cs) = (m.next c).after cs := rfl

/-- Going over two texts one behind the other is going over the first and then the second. -/
theorem after_append (cs ds : List Char) : m.after (cs ++ ds) = (m.after cs).after ds :=
  List.foldl_append

/-- Behind the end of a line begins the next one. -/
theorem next_of_break (isEnd : isBreak c = true) : m.next c = ⟨m.index + 1, m.line + 1, 0⟩ := by
  rw [next, if_pos isEnd]

/-- Any other character moves on within its line. -/
theorem next_of_not_break (inside : isBreak c = false) :
    m.next c = ⟨m.index + 1, m.line, m.column + 1⟩ := by
  rw [next, inside]
  rfl

/-- Going on never leads back to an earlier line. -/
theorem line_le_next : m.line ≤ (m.next c).line := by
  cases isEnd : isBreak c with
  | true =>
    rw [next_of_break isEnd]
    exact Nat.le_succ _
  | false =>
    exact Nat.le_of_eq (congrArg Mark.line (next_of_not_break isEnd)).symm

/-- Lines do not go back. -/
theorem line_le_after (m : Mark) (cs : List Char) : m.line ≤ (m.after cs).line := by
  induction cs generalizing m with
  | nil => exact Nat.le_refl _
  | cons c cs ih => exact Nat.le_trans line_le_next (ih _)

/-- On one line, the index and the column go on together. -/
theorem after_of_not_break (inside : ∀ c ∈ cs, isBreak c = false) :
    m.after cs = ⟨m.index + cs.length, m.line, m.column + cs.length⟩ := by
  induction cs generalizing m with
  | nil => rfl
  | cons c cs ih =>
    rw [after_cons, next_of_not_break (inside c List.mem_cons_self),
      ih fun d mem => inside d (List.mem_cons_of_mem _ mem)]
    simp only [List.length_cons, Mark.mk.injEq, true_and]
    omega

end Mark

/-- The cursor behind characters. -/
theorem Cursor.skip_append (cs rest : List Char) (m : Mark) :
    Cursor.skip cs.length ⟨m, cs ++ rest⟩ = ⟨m.after cs, rest⟩ := by
  induction cs generalizing m with
  | nil => rfl
  | cons c cs ih => exact ih _

/-! ## Gaps -/

theorem Gap.text_addBlank {gap : Gap} (unbroken : gap.isBroken = false) :
    (gap.addBlank c).text = gap.text ++ [c] := by
  cases gap with
  | none => rfl
  | blanks cs => rfl
  | breaks first more => cases unbroken

theorem Gap.isBroken_addBlank {gap : Gap} : (gap.addBlank c).isBroken = gap.isBroken := by
  cases gap <;> rfl

/-! ## Lines -/

/-- What stands in front of a line, and what is indented no more than a block. -/
structure NextLine (indent : Nat) (text : List Char) (column : Nat) (rest : List Char) : Prop where
  text_eq : text = blanks column ++ rest
  le : column ≤ indent
  visible : ∀ c ∈ rest.head?, isVisible c = true

/-- Blanks move on within the line, one column each. -/
theorem Mark.after_blanks (m : Mark) (n : Nat) :
    m.after (blanks n) = ⟨m.index + n, m.line, m.column + n⟩ := by
  have line : ∀ c ∈ blanks n, isBreak c = false := by
    intro c mem
    rw [List.eq_of_mem_replicate mem]
    rfl
  rw [Mark.after_of_not_break line, blanks, List.length_replicate]

end Pipework.Yaml
