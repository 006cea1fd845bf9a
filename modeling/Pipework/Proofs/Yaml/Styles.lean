import Mathlib.Data.List.Basic
import Pipework.Proofs.Yaml.Literal
import Pipework.Proofs.Yaml.Plain
import Pipework.Proofs.Yaml.Quoted

/-!
# Texts in their styles

The style that is chosen for a text is one in which the text is read back, as a value that ends a
line or as a key in front of its colon. A key that is put on the line of its value is on one line, and
short enough for its colon to be found.
-/

namespace Pipework.Yaml

variable {c : Char} {cs rest : List Char}

/-! ## Choosing a style -/

/-- The style of a text, with what the style needs of it. -/
inductive Styled (s : String) : ScalarStyle → Prop
  | plain (means : meaning s = .text) (plain : allowsPlain s.toList = true) : Styled s .plain
  | single (fits : FitsSingle s.toList) : Styled s .single
  | double : Styled s .double
  | literal (feed : '\n' ∈ s.toList) (printable : ∀ c ∈ s.toList, isPrintable c = true) :
      Styled s .literal

/-- A text fits the style that is chosen for it. -/
theorem styled (s : String) : Styled s (styleOf s) := by
  simp only [styleOf, List.contains_eq_mem]
  by_cases feed : '\n' ∈ s.toList
  · by_cases literal : allowsLiteral s.toList = true
    · rw [decide_eq_true feed, if_pos rfl, if_pos literal]
      simp only [allowsLiteral, Bool.and_eq_true, List.all_eq_true] at literal
      exact .literal feed literal.1.1
    · rw [decide_eq_true feed, if_pos rfl, if_neg literal]
      exact .double
  · rw [decide_eq_false feed, if_neg Bool.false_ne_true]
    by_cases plain : (meaning s == .text && !isPaddedDigits s.toList && allowsPlain s.toList) = true
    · rw [if_pos plain]
      simp only [Bool.and_eq_true, beq_iff_eq] at plain
      exact .plain plain.1.1 plain.2
    · rw [if_neg plain]
      by_cases single : allowsSingle s.toList = true
      · rw [if_pos single]
        simp only [allowsSingle, Bool.and_eq_true, Bool.not_eq_true', List.all_eq_true] at single
        obtain ⟨⟨printable, noIndent⟩, noTrail⟩ := single
        refine .single ⟨printable, fun c mem same => ?_, noIndent, noTrail⟩
        rw [same] at mem
        exact feed mem
      · rw [if_neg single]
        exact .double

/-! ## The last character -/

theorem endLine_of_line (line : cs.getLast?.any isBreak = false) : endLine cs = cs ++ ['\n'] := by
  rw [endLine, line]
  rfl

/-- A line without its end is ended. -/
theorem endLine_of_not_break (line : ∀ c ∈ cs, isBreak c = false) : endLine cs = cs ++ ['\n'] := by
  refine endLine_of_line ?_
  cases last : cs.getLast? with
  | none => rfl
  | some c => exact line c (List.mem_of_getLast? last)

/-- A text in quotes ends with its quote. -/
theorem endLine_quoted {quote : Char} (other : isBreak quote = false) :
    endLine (cs ++ [quote]) = cs ++ [quote] ++ ['\n'] := by
  refine endLine_of_line ?_
  rw [List.getLast?_concat]
  exact other

theorem getLast?_indented (n : Nat) (fresh : Bool) (cs : List Char) :
    (indented n fresh cs).getLast? = cs.getLast? := by
  induction cs generalizing fresh with
  | nil => rfl
  | cons c cs ih =>
    have last : ∀ flag, (c :: indented n flag cs).getLast? = (c :: cs).getLast? := by
      intro flag
      rw [List.getLast?_cons, List.getLast?_cons, ih]
    rw [indented]
    split
    · exact last true
    · rw [List.getLast?_append_cons, last]

/-- A text behind its bar gets the line end that it has not got itself. -/
theorem endLine_literal {n : Nat} (some : cs ≠ []) :
    endLine ('|' :: literalHeader cs ++ '\n' :: indented n true cs) =
      '|' :: (literalHeader cs ++ '\n' :: (indented n true cs ++ missingEnd cs)) := by
  have last : ('|' :: literalHeader cs ++ '\n' :: indented n true cs).getLast? = cs.getLast? := by
    rw [List.getLast?_append_cons, List.getLast?_cons, getLast?_indented]
    obtain ⟨c, ds, rfl⟩ := List.exists_cons_of_ne_nil some
    rw [List.getLast?_cons]
    rfl
  rw [endLine, last, missingEnd]
  split
  · rw [List.append_nil]
    rfl
  · simp only [List.cons_append, List.append_assoc]

/-! ## Short keys -/

theorem length_le_byteSize (cs : List Char) : cs.length ≤ Json.byteSize cs := by
  have from_any : ∀ n, n + cs.length ≤ cs.foldl (fun n c => n + c.utf8Size) n := by
    induction cs with
    | nil => exact Nat.le_refl
    | cons c cs ih =>
      intro n
      have size := c.utf8Size_pos
      have more := ih (n + c.utf8Size)
      rw [List.foldl_cons, List.length_cons]
      omega
  have := from_any 0
  rwa [Nat.zero_add] at this

theorem length_hexDigits (width n : Nat) : (hexDigits width n).length = width := by
  induction width generalizing n with
  | zero => rfl
  | succ width ih => rw [hexDigits, List.length_append, ih, List.length_singleton]

/-- A character that has more than four hexadecimal digits needs none of them. -/
theorem plain_of_large (large : 0xFFFF < c.toNat) :
    (isPrintable c && !isBreak c && c != '"' && c != '\\') = true := by
  have other : ∀ d : Char, d.toNat ≤ 0xFFFF → (c == d) = false := by
    rintro d small
    refine beq_false_of_ne ?_
    rintro rfl
    exact absurd large (Nat.not_lt.mpr small)
  have above : '\u00a0' ≤ c := by
    rw [Char.le_def, UInt32.le_iff_toNat_le]
    exact Nat.le_trans (by decide) (Nat.le_of_lt large)
  have printable : isPrintable c = true := by
    simp only [isPrintable, bne, other byteOrderMark (by decide), other '\ufffe' (by decide),
      other '\uffff' (by decide), decide_eq_true above, Bool.not_false, Bool.and_true, Bool.or_true]
  have line : isBreak c = false := by
    simp only [isBreak, other '\n' (by decide), other '\r' (by decide), other '\u0085' (by decide),
      other '\u2028' (by decide), other '\u2029' (by decide), Bool.or_self]
  simp only [bne, printable, line, other '"' (by decide), other '\\' (by decide), Bool.not_false,
    Bool.and_self]

/-- No escape is longer than six characters, since what would need eight digits stands for itself. -/
theorem length_escaped_le (c : Char) : (escaped c).length ≤ 6 := by
  unfold escaped
  split
  · exact Nat.le_of_ble_eq_true rfl
  next escapes =>
  split
  · exact Nat.le_of_ble_eq_true rfl
  have numbered (mark : Char) {width : Nat} (small : width ≤ 4) :
      ('\\' :: mark :: hexDigits width c.toNat).length ≤ 6 := by
    rw [List.length_cons, List.length_cons, length_hexDigits]
    omega
  split
  · exact numbered 'x' (by omega)
  split
  · exact numbered 'u' (Nat.le_refl 4)
  next large => exact absurd (plain_of_large (Nat.not_le.mp large)) escapes

theorem length_flatMap_le {f : Char → List Char} {n : Nat} (each : ∀ c, (f c).length ≤ n)
    (cs : List Char) : (cs.flatMap f).length ≤ n * cs.length := by
  induction cs with
  | nil => exact Nat.le_refl _
  | cons c cs ih =>
    have here := each c
    rw [List.flatMap_cons, List.length_append, List.length_cons, Nat.mul_succ]
    omega

/-- On one line there is nothing to indent. -/
theorem indented_of_not_break (n : Nat) (line : ∀ c ∈ cs, isBreak c = false) :
    indented n false cs = cs := by
  induction cs with
  | nil => rfl
  | cons c cs ih =>
    rw [indented, line c List.mem_cons_self, ih fun d mem => line d (List.mem_cons_of_mem _ mem)]
    rfl

/-- Doubling the quotes of a line leaves it one line. -/
theorem not_break_twice (line : ∀ c ∈ cs, isBreak c = false) :
    ∀ c ∈ cs.flatMap twice, isBreak c = false := by
  intro c mem
  obtain ⟨d, here, mem⟩ := List.mem_flatMap.mp mem
  rw [eq_of_mem_twice mem]
  exact line d here

/-- A line between single quotes is but doubled quotes. -/
theorem singleBody_of_not_break (indent : Nat) (line : ∀ c ∈ cs, isBreak c = false) :
    singleBody indent cs = cs.flatMap twice := by
  have last : endsFresh false cs = false := by
    unfold endsFresh
    cases last : cs.getLast? with
    | none => rfl
    | some c => exact line c (List.mem_of_getLast? last)
  rw [singleBody_eq, indented_of_not_break indent (not_break_twice line), last]
  exact List.append_nil _

/-- A short key of one line is written on one line, and its colon is not too far behind its start. -/
structure OneLine (text : List Char) : Prop where
  line : ∀ c ∈ text, isBreak c = false
  short : text.length ≤ 1024

/-- So does putting it in quotes. -/
theorem OneLine.quoted {body : List Char} {quote : Char} (other : isBreak quote = false)
    (line : ∀ c ∈ body, isBreak c = false) (short : body.length ≤ 6 * 128) :
    OneLine (quote :: body ++ [quote]) := by
  refine ⟨fun c mem => ?_, ?_⟩
  · rcases List.mem_append.mp mem with mem | mem
    · rcases List.mem_cons.mp mem with rfl | mem
      · exact other
      · exact line c mem
    · rwa [List.mem_singleton.mp mem]
  · rw [List.length_append, List.length_cons, List.length_singleton]
    omega

/-- A simple key is written on one line, in whatever style. -/
theorem oneLine_key {key : String} (simple : isSimpleKey key = true) (indent : Nat) :
    OneLine (textChars indent key) := by
  simp only [isSimpleKey, isMultiline, Bool.and_eq_true, Bool.not_eq_true', List.any_eq_false,
    Bool.not_eq_true, decide_eq_true_eq] at simple
  obtain ⟨line, small⟩ := simple
  have short : key.toList.length ≤ 128 := Nat.le_trans (length_le_byteSize _) small
  have style := styled key
  unfold textChars
  generalize styleOf key = chosen at style ⊢
  cases style with
  | plain => exact ⟨line, Nat.le_trans short (by decide)⟩
  | single fits =>
    show OneLine ('\'' :: singleBody indent key.toList ++ ['\''])
    rw [singleBody_of_not_break indent line]
    have doubled : ∀ c, (twice c).length ≤ 2 := by
      intro c
      unfold twice
      split <;> exact Nat.le_of_ble_eq_true rfl
    have := length_flatMap_le doubled key.toList
    exact .quoted rfl (not_break_twice line) (by omega)
  | double =>
    have := length_flatMap_le length_escaped_le key.toList
    exact .quoted rfl (fun c mem => (printable_escaped c mem).2) (by omega)
  | literal feed => cases line _ feed

/-! ## As values -/

namespace Scanner

variable {toks toks' out : List Token} {blocks blocks' : List Int} {allowed : Bool}
  {indent column n : Nat} {text : List Char}

/-- The line behind a value that has ended its own. -/
theorem gives_nextLine (next : NextLine indent text n rest)
    (more : Gives toks blocks allowed n rest out) : Gives toks blocks allowed 0 text out := by
  rw [next.text_eq]
  refine gives_blanks ?_
  rwa [Nat.zero_add]

/-- A text as a value, in a block at some column. -/
theorem gives_text (s : String) (next : NextLine indent text n rest) (deeper : indent < column)
    (more : Gives (toks ++ [.scalar (styleOf s) s]) (indent :: blocks) true n rest out) :
    Gives toks (indent :: blocks) allowed column (endLine (textChars (indent + 2) s) ++ text)
      out := by
  have deeper : (indent : Int) < column := Int.ofNat_lt.mpr deeper
  have style := styled s
  unfold textChars
  generalize styleOf s = chosen at style more ⊢
  cases style with
  | plain means plain =>
    obtain ⟨-, -, line, -⟩ := allowsPlain_iff.mp plain
    have takes := takesLines_plain plain next
    rw [String.ofList_toList] at takes
    show Gives _ _ _ _ (endLine s.toList ++ text) _
    rw [endLine_of_not_break line, List.append_assoc]
    exact gives_lines takes deeper more
  | single fits =>
    have takes := @takesScalar_single _ ('\n' :: text) _ (Nat.succ_pos (indent + 1)) fits
      (by rintro c ⟨⟩; decide)
    rw [String.ofList_toList] at takes
    show Gives _ _ _ _ (endLine ('\'' :: singleBody (indent + 2) s.toList ++ ['\'']) ++ text) _
    rw [endLine_quoted rfl, List.append_assoc]
    exact gives_line takes deeper (gives_nextLine next more)
  | double =>
    have takes := @takesScalar_double s.toList ('\n' :: text) (by rintro c ⟨⟩; decide)
    rw [String.ofList_toList] at takes
    show Gives _ _ _ _ (endLine ('"' :: s.toList.flatMap escaped ++ ['"']) ++ text) _
    rw [endLine_quoted rfl, List.append_assoc]
    exact gives_line takes deeper (gives_nextLine next more)
  | literal feed printable =>
    have some : s.toList ≠ [] := List.ne_nil_of_mem feed
    have takes := takesLines_literal some printable next
    rw [String.ofList_toList] at takes
    show Gives _ _ _ _ (endLine ('|' :: literalHeader s.toList ++
      '\n' :: indented (indent + 2) true s.toList) ++ text) _
    rw [endLine_literal some]
    simp only [List.cons_append, List.append_assoc]
    exact gives_lines takes deeper more

/-- A text as a key on the line of its value. -/
theorem takesScalar_key {key : String} (simple : isSimpleKey key = true)
    (space : atSpace rest = true) :
    TakesScalar (textChars (indent + 2) key) (styleOf key) key (':' :: rest) := by
  have style := styled key
  have closes : ∀ c ∈ (':' :: rest).head?, c ≠ '\'' := by
    rintro c ⟨⟩
    decide
  unfold textChars
  generalize styleOf key = chosen at style ⊢
  cases style with
  | plain means plain =>
    have takes := takesScalar_plain plain space
    rwa [String.ofList_toList] at takes
  | single fits =>
    have takes := takesScalar_single (Nat.succ_pos (indent + 1)) fits closes
    rwa [String.ofList_toList] at takes
  | double =>
    have takes := @takesScalar_double key.toList _ closes
    rwa [String.ofList_toList] at takes
  | literal feed =>
    have multiline : isMultiline key.toList = true := List.any_eq_true.mpr ⟨_, feed, rfl⟩
    rw [isSimpleKey, multiline] at simple
    cases simple

end Scanner

end Pipework.Yaml
