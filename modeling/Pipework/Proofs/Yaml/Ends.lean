import Mathlib.Data.List.DropRight
import Pipework.Proofs.Yaml.Printed
import Pipework.Text.Classes

/-!
# Where documents end

Taking the blanks off the end of a text takes no more than the end of its last line, if there is no
blank in front of that. A document ends with what its last field has for a value, and of the texts
that may stand there only those without quotes can end in blanks of their own.
-/

namespace Pipework

namespace Text

variable {c : Char} {cs ds : List Char}

/-- The text does not end in a blank. -/
def EndsSolid (cs : List Char) : Prop := ∀ c ∈ cs.getLast?, isBlank c = false

theorem endsSolid_concat : EndsSolid (cs ++ [c]) ↔ isBlank c = false := by
  unfold EndsSolid
  rw [List.getLast?_concat]
  exact ⟨fun solid => solid c rfl, fun solid _ same => Option.some.inj same ▸ solid⟩

/-- What a text ends in stands in its last part. -/
theorem endsSolid_append (some : ds ≠ []) : EndsSolid (cs ++ ds) ↔ EndsSolid ds := by
  obtain ⟨front, c, rfl⟩ := (List.eq_nil_or_concat' ds).resolve_left some
  rw [← List.append_assoc, endsSolid_concat, endsSolid_concat]

theorem trimEnd_concat (blank : isBlank c = true) : trimEnd (cs ++ [c]) = trimEnd cs :=
  List.rdropWhile_concat_pos isBlank cs c blank

/-- Blanks at the end are all gone. -/
theorem trimEnd_append (blank : ds.all isBlank = true) : trimEnd (cs ++ ds) = trimEnd cs := by
  induction ds using List.reverseRecOn with
  | nil => rw [List.append_nil]
  | append_singleton ds c ih =>
    rw [List.all_append, List.all_cons, List.all_nil, Bool.and_true, Bool.and_eq_true] at blank
    rw [← List.append_assoc, trimEnd_concat blank.2]
    exact ih blank.1

/-- A text is its own rest exactly when it does not end in a blank. -/
theorem trimEnd_eq_self : trimEnd cs = cs ↔ EndsSolid cs := by
  rcases List.eq_nil_or_concat' cs with rfl | ⟨front, c, rfl⟩
  · exact iff_of_true rfl (by rintro _ ⟨⟩)
  · refine List.rdropWhile_eq_self_iff.trans ?_
    simp only [endsSolid_concat, List.getLast_append_singleton, Bool.not_eq_true]
    exact forall_prop_of_true (List.append_ne_nil_of_right_ne_nil front (List.cons_ne_nil c []))

theorem endsSolid_trimEnd (cs : List Char) : EndsSolid (trimEnd cs) :=
  trimEnd_eq_self.mp (List.rdropWhile_idempotent isBlank cs)

/-- The text ends with a line that does not end in a blank. -/
def EndsLine (cs : List Char) : Prop := ∃ front, cs = front ++ ['\n'] ∧ EndsSolid front

theorem endsLine_concat : EndsLine (cs ++ [c]) ↔ c = '\n' ∧ EndsSolid cs := by
  constructor
  · rintro ⟨front, same, solid⟩
    obtain ⟨rfl, last⟩ := List.append_inj' same rfl
    exact ⟨List.head_eq_of_cons_eq last, solid⟩
  · rintro ⟨rfl, solid⟩
    exact ⟨cs, rfl, solid⟩

/-- Without its blanks and with a line end again, a text is what it was exactly when its last line
does not end in a blank. -/
theorem trimEnd_append_lineEnd : trimEnd cs ++ ['\n'] = cs ↔ EndsLine cs := by
  constructor
  · intro same
    exact ⟨trimEnd cs, same.symm, endsSolid_trimEnd cs⟩
  · rintro ⟨front, rfl, solid⟩
    rw [trimEnd_concat rfl, trimEnd_eq_self.mpr solid]

end Text

namespace Yaml

open Text (EndsSolid EndsLine)

variable {c : Char} {cs : List Char}

/-! ## Texts -/

/-- A text without the line feed that ends its last line. -/
def withoutFeed (cs : List Char) : List Char :=
  if cs.getLast? = some '\n' then cs.dropLast else cs

/-- Does a text that has no quotes around it end in a blank, or in nothing, apart from a line feed
that ends its last line? -/
def endsBlank (s : String) : Bool :=
  match styleOf s with
  | .plain | .literal | .folded => (withoutFeed s.toList).getLast?.all Text.isBlank
  | .single | .double => false

theorem withoutFeed_feed (cs : List Char) : withoutFeed (cs ++ ['\n']) = cs := by
  rw [withoutFeed, List.getLast?_concat, if_pos rfl, List.dropLast_concat]

theorem withoutFeed_of_ne (other : c ≠ '\n') : withoutFeed (cs ++ [c]) = cs ++ [c] := by
  rw [withoutFeed, List.getLast?_concat, if_neg fun same => other (Option.some.inj same)]

/-- Every end of a line is white space. -/
theorem isBlank_of_isBreak (isEnd : isBreak c = true) : Text.isBlank c = true := by
  simp only [isBreak, Bool.or_eq_true, beq_iff_eq] at isEnd
  rcases isEnd with (((rfl | rfl) | rfl) | rfl) | rfl <;> decide

/-- A text without quotes around it ends its line as it ends itself. -/
theorem endsLine_append_feed (front : List Char) (some : cs ≠ []) :
    EndsLine (front ++ cs ++ ['\n']) ↔ cs.getLast?.all Text.isBlank = false := by
  obtain ⟨ds, c, rfl⟩ := (List.eq_nil_or_concat' cs).resolve_left some
  rw [Text.endsLine_concat, Text.endsSolid_append some, Text.endsSolid_concat, List.getLast?_concat]
  exact and_iff_right rfl

/-- A quote is no blank. -/
theorem endsLine_quoted (front : List Char) {quote : Char} (solid : Text.isBlank quote = false) :
    EndsLine (front ++ endLine (cs ++ [quote])) := by
  have other : isBreak quote = false :=
    Bool.eq_false_iff.mpr fun isEnd => Bool.eq_false_iff.mp solid (isBlank_of_isBreak isEnd)
  rw [endLine_quoted other, ← List.append_assoc, ← List.append_assoc, Text.endsLine_concat,
    Text.endsSolid_concat]
  exact ⟨rfl, solid⟩

/-- How a text ends that stands on lines of its own. -/
theorem endsLine_indented (front : List Char) (n : Nat) (some : cs ≠ []) :
    EndsLine (front ++ '\n' :: (indented n true cs ++ missingEnd cs)) ↔
      (withoutFeed cs).getLast?.all Text.isBlank = false := by
  have shift (lines : List Char) : front ++ '\n' :: lines = front ++ ['\n'] ++ lines := by
    rw [List.append_assoc, List.singleton_append]
  have indented_some {cs : List Char} (some : cs ≠ []) : indented n true cs ≠ [] := by
    intro none
    have last := getLast?_indented n true cs
    rw [none] at last
    exact some (List.getLast?_eq_none_iff.mp last.symm)
  obtain ⟨ds, c, rfl⟩ := (List.eq_nil_or_concat' cs).resolve_left some
  rw [missingEnd, List.getLast?_concat, Option.any_some]
  by_cases isEnd : isBreak c = true
  · rw [if_pos isEnd, List.append_nil, indented_concat true isEnd]
    by_cases feed : c = '\n'
    · subst feed
      rw [withoutFeed_feed]
      rcases List.eq_nil_or_concat' ds with rfl | ⟨es, d, rfl⟩
      · refine iff_of_false (fun ends => ?_) Bool.true_eq_false.mp
        have ends : EndsLine (front ++ ['\n'] ++ ['\n']) := shift ['\n'] ▸ ends
        have solid := (Text.endsLine_concat.mp ends).2
        exact absurd (Text.endsSolid_concat.mp solid) (by decide)
      · have some : es ++ [d] ≠ [] := List.append_ne_nil_of_right_ne_nil es (List.cons_ne_nil d [])
        rw [shift, ← List.append_assoc, endsLine_append_feed _ (indented_some some), getLast?_indented]
    · rw [withoutFeed_of_ne feed, List.getLast?_concat, Option.all_some, isBlank_of_isBreak isEnd,
        shift, ← List.append_assoc, Text.endsLine_concat]
      simp [feed]
  · have feed : c ≠ '\n' := by
      rintro rfl
      exact isEnd rfl
    rw [if_neg isEnd, withoutFeed_of_ne feed, shift, ← List.append_assoc,
      endsLine_append_feed _ (indented_some some), getLast?_indented]

/-- **How a text ends its line.** It does so without a blank in front, unless it has no quotes around
it and ends in a blank itself. -/
theorem endsLine_text (front : List Char) (n : Nat) (s : String) :
    EndsLine (front ++ endLine (textChars n s)) ↔ endsBlank s = false := by
  have style := styled s
  unfold textChars endsBlank
  generalize styleOf s = chosen at style ⊢
  cases style with
  | plain means plain =>
    obtain ⟨some, -, line, -⟩ := allowsPlain_iff.mp plain
    show EndsLine (front ++ endLine s.toList) ↔ (withoutFeed s.toList).getLast?.all Text.isBlank = false
    rw [endLine_of_not_break line, ← List.append_assoc, endsLine_append_feed front some]
    obtain ⟨ds, c, same⟩ := (List.eq_nil_or_concat' _).resolve_left some
    rw [same, withoutFeed_of_ne]
    rintro rfl
    have := line '\n' (same ▸ List.mem_concat_self)
    cases this
  | single | double => exact iff_of_true (endsLine_quoted front rfl) rfl
  | literal feed printable =>
    have some : s.toList ≠ [] := List.ne_nil_of_mem feed
    show EndsLine (front ++ endLine ('|' :: literalHeader s.toList ++
      '\n' :: indented n true s.toList)) ↔ (withoutFeed s.toList).getLast?.all Text.isBlank = false
    rw [endLine_literal some]
    have := endsLine_indented (front ++ '|' :: literalHeader s.toList) n some
    rwa [List.append_assoc] at this

/-! ## Last fields and items -/

/-- Fields end as the value of the last does, and what stands in front of that is the same for all
values. -/
theorem fieldLines_concat (indent : Nat) {key : String} (simple : isSimpleKey key = true)
    (fields : List (String × Json)) :
    ∃ front, ∀ v, fieldLines indent (fields ++ [(key, v)]) = front ++ afterKey indent v := by
  induction fields with
  | nil =>
    refine ⟨textChars (indent + 2) key ++ [':'], fun v => ?_⟩
    rw [List.nil_append, fieldLines_cons, moreFields, List.append_nil, fieldText, if_pos simple]
    simp only [List.append_assoc, List.singleton_append]
  | cons field fields ih =>
    obtain ⟨front, same⟩ := ih
    obtain ⟨k, w⟩ := field
    refine ⟨fieldText indent k w ++ (blanks indent ++ front), fun v => ?_⟩
    obtain ⟨f, fs, shape⟩ := List.exists_cons_of_ne_nil
      (List.append_ne_nil_of_right_ne_nil fields (List.cons_ne_nil (key, v) []))
    rw [List.cons_append, fieldLines_cons, shape, moreFields, ← shape, same]
    simp only [List.append_assoc]

/-- Items end as the last does. -/
theorem itemLines_concat (indent : Nat) (items : List Json) :
    ∃ front, ∀ v, itemLines indent (items ++ [v]) = front ++ afterMark indent v := by
  induction items with
  | nil =>
    refine ⟨['-'], fun v => ?_⟩
    rw [List.nil_append, itemLines_cons, moreItems, List.append_nil, List.singleton_append]
  | cons w items ih =>
    obtain ⟨front, same⟩ := ih
    refine ⟨'-' :: (afterMark indent w ++ (blanks indent ++ front)), fun v => ?_⟩
    obtain ⟨u, us, shape⟩ := List.exists_cons_of_ne_nil
      (List.append_ne_nil_of_right_ne_nil items (List.cons_ne_nil v []))
    rw [List.cons_append, itemLines_cons, shape, moreItems, ← shape, same]
    simp only [List.cons_append, List.append_assoc]

/-- The first field of an object stands behind its mark. -/
theorem afterMark_object (indent : Nat) (fields : List (String × Json)) (field : String × Json) :
    afterMark indent (.object (fields ++ [field])) =
      ' ' :: fieldLines (indent + 2) (fields ++ [field]) := by
  cases fields <;> rfl

/-- The items of a list stand below its key. -/
theorem afterKey_array (indent : Nat) (items : List Json) (v : Json) :
    afterKey indent (.array (items ++ [v])) =
      '\n' :: (blanks indent ++ itemLines indent (items ++ [v])) := by
  cases items <;> rfl

/-- A text without quotes behind its key. -/
theorem afterKey_plain (indent : Nat) {s : String} (plain : styleOf s = .plain) :
    afterKey indent (.string s) = ' ' :: (s.toList ++ ['\n']) := by
  have style := styled s
  rw [plain] at style
  obtain ⟨-, -, line, -⟩ : _ ∧ _ ∧ (∀ c ∈ s.toList, isBreak c = false) ∧ _ := by
    cases style with
    | plain _ plain => exact allowsPlain_iff.mp plain
  rw [afterKey, textChars, plain]
  exact congrArg (' ' :: ·) (endLine_of_not_break line)

/-- How an optional text ends the line of its key. -/
theorem endsLine_ofText (front : List Char) (indent : Nat) (text : Option String) :
    EndsLine (front ++ afterKey indent (Json.ofText? text)) ↔ text.any endsBlank = false := by
  cases text with
  | none =>
    have ends := (endsLine_append_feed front (List.cons_ne_nil ' ' "null".toList)).mpr (by decide)
    rw [List.append_assoc] at ends
    exact iff_of_true ends rfl
  | some s =>
    have := endsLine_text (front ++ [' ']) (indent + 2) s
    rwa [List.append_assoc] at this

end Yaml

end Pipework
