import Mathlib.Tactic.MkIffOfInductiveProp
import Pipework.Builtin.Rows
import Pipework.Proofs.Number.Rounding

/-!
# Comparisons in filters

A filter compares the number in a field with a number in two ways. Equality takes two signed words
as they are, and the order takes all numbers as doubles. The two go together as long as different
words have different doubles. Beyond 2⁵³ some have not: `9007199254740993` is not the same as
`9007199254740992`, nor is it less or greater, but it is both "less or the same" and "greater or the
same".

What a parameter says is read from its key. The key of a condition has the name of the field, two
underscores and the name of an operator, and it is split at the first two underscores in a row. So
not every field can be compared: a key that begins with an underscore is no condition, and one that
is split within the name of the field is a condition that nothing meets.
-/

namespace Pipework

/-! ## Words and doubles -/

theorem Double.cmp_eq_iff (x y : Double) : x.cmp y = .eq ↔ x.units = y.units :=
  Std.LawfulEqOrd.compare_eq_iff_eq

/-- A signed word determines the number. -/
theorem Number.toSigned?_inj {a b : Number} {i : Int} (left : a.toSigned? = some i)
    (right : b.toSigned? = some i) : a = b := by
  cases a with
  | double => cases left
  | integer i' =>
    cases b with
    | double => cases right
    | integer j' =>
      simp only [Number.toSigned?, Option.ite_none_right_eq_some, Option.some.injEq] at left right
      obtain ⟨-, rfl⟩ := left
      obtain ⟨-, rfl⟩ := right
      rfl

/-- A word up to 2⁵³ is its nearest double. -/
theorem Number.units_toDouble_of_small {a : Number} {i : Int} (word : a.toSigned? = some i)
    (small : i.natAbs ≤ twoTo 53) : a.toDouble.units = i * twoTo 1074 := by
  cases a with
  | double => cases word
  | integer i' =>
    simp only [Number.toSigned?, Option.ite_none_right_eq_some, Option.some.injEq] at word
    obtain ⟨-, rfl⟩ := word
    obtain ⟨x, rounded, units⟩ := Double.exists_units_eq small
    rw [Number.toDouble, rounded, Option.getD_some, units]

namespace Rows

/-! ## Keys -/

theorem splitKey_cons_cons (c d : Char) (cs : List Char) :
    splitKey (c :: d :: cs) = if c = '_' ∧ d = '_' then some ([], cs)
      else (splitKey (d :: cs)).map fun (field, op) => (c :: field, op) := by
  split
  next both =>
    obtain ⟨rfl, rfl⟩ := both
    rfl
  next other =>
    exact splitKey.eq_4 c (d :: cs) nofun fun _ first second =>
      other ⟨first, (List.cons.inj second).1⟩

/-- A key is split unless it has no two underscores in a row. -/
theorem splitKey_eq_none_iff : (cs : List Char) → (splitKey cs = none ↔ ¬ ['_', '_'] <:+: cs)
  | [] => by decide
  | [c] => by
    refine iff_of_true rfl fun inside => ?_
    have := inside.length_le
    simp at this
  | c :: d :: cs => by
    have here : ['_', '_'] <+: c :: d :: cs ↔ c = '_' ∧ d = '_' := by
      simp [List.cons_prefix_cons, eq_comm]
    rw [splitKey_cons_cons, List.infix_cons_iff, here]
    split
    next both => exact iff_of_false nofun (not_not_intro (.inl both))
    next other =>
      rw [Option.map_eq_none_iff, splitKey_eq_none_iff (d :: cs), or_iff_right other]

/-- What is split is split there however the key goes on. -/
theorem splitKey_append {field op : List Char} (more : List Char) :
    {cs : List Char} → splitKey cs = some (field, op) →
    splitKey (cs ++ more) = some (field, op ++ more)
  | c :: d :: cs, found => by
    rw [splitKey_cons_cons] at found
    rw [List.cons_append, List.cons_append, splitKey_cons_cons]
    split at found
    next both =>
      cases found
      exact if_pos both
    next other =>
      obtain ⟨⟨field, op⟩, behind, same⟩ := Option.map_eq_some_iff.mp found
      cases same
      have := splitKey_append more behind
      rw [List.cons_append] at this
      rw [if_neg other, this]
      rfl

/-- A name without two underscores in a row is split from what follows the next two. -/
theorem splitKey_begun {cs : List Char} (op : List Char) (begun : splitKey (cs ++ ['_']) = none) :
    splitKey (cs ++ ['_'] ++ '_' :: op) = some (cs, op) := by
  induction cs with
  | nil => rfl
  | cons c cs ih =>
    obtain ⟨d, ds, behind⟩ := List.exists_cons_of_ne_nil (List.concat_ne_nil '_' cs)
    rw [List.cons_append, behind, splitKey_cons_cons] at begun
    rw [behind] at ih
    rw [List.cons_append, behind, List.cons_append, List.cons_append, splitKey_cons_cons]
    split at begun
    next => cases begun
    next other =>
      have := ih (Option.map_eq_none_iff.mp begun)
      rw [List.cons_append] at this
      rw [if_neg other, this]
      rfl

namespace Operator

/-- The key of a condition on a field. -/
def key (op : Operator) (field : String) : String := field ++ "__" ++ op.name

/-- The name of a condition is the field, two underscores and the operator. -/
theorem toList_key (op : Operator) (field : String) :
    (op.key field).toList = field.toList ++ ['_'] ++ '_' :: op.name.toList := by
  simp only [key, String.toList_append, List.append_assoc]
  rfl

theorem head?_key (op : Operator) (field : String) :
    (op.key field).toList.head? = (field.toList ++ ['_']).head? := by
  simp only [toList_key, List.append_assoc, List.head?_append, List.head?_cons, Option.some_or]

theorem ofName?_name (op : Operator) : ofName? op.name = some op := by
  cases op <;> decide

/-- Names of operators have no underscores. -/
theorem ofName?_eq_none {name : List Char} (underscore : '_' ∈ name) :
    ofName? (String.ofList name) = none := by
  refine List.find?_eq_none.mpr fun op _ same => ?_
  have spelled : op.name.toList = name := by rw [eq_of_beq same, String.toList_ofList]
  have plain : '_' ∉ op.name.toList := by cases op <;> decide
  exact plain (spelled ▸ underscore)

end Operator

/-- Conditions can be put on a field if its name and the first of the two underscores behind it do
not begin with an underscore and have no two in a row. -/
def Addressable (field : String) : Prop :=
  (field.toList ++ ['_']).head? ≠ some '_' ∧ ¬ ['_', '_'] <:+: field.toList ++ ['_']

instance (field : String) : Decidable (Addressable field) :=
  inferInstanceAs (Decidable (_ ∧ _))

namespace Condition

/-- A key without two underscores in a row is the name of a field. -/
theorem ofParam_whole {key : String} (whole : ¬ ['_', '_'] <:+: key.toList) (expected : Json) :
    ofParam key expected = ⟨key, some .eq, expected⟩ := by
  simp only [ofParam, (splitKey_eq_none_iff _).mpr whole]

/-- The key of an operator on an addressable field says both. -/
theorem ofParam_key (op : Operator) {field : String} (addressable : Addressable field)
    (expected : Json) : ofParam (op.key field) expected = ⟨field, some op, expected⟩ := by
  have begun := splitKey_begun op.name.toList ((splitKey_eq_none_iff _).mpr addressable.2)
  simp only [ofParam, op.toList_key, begun, String.ofList_toList, op.ofName?_name]

end Condition

/-! ## Rows that are kept -/

/-- With this parameter a filter keeps the row in every list that has it. -/
def Keeps (key : String) (expected : Json) (row : Fields) : Prop :=
  ∀ rows, .object row ∈ rows →
    ∃ kept, filter [(key, expected)] (.array rows) = .ok (.array kept) ∧ .object row ∈ kept

section Kept

variable {field : String} {row : Fields} {actual : Json} (expected : Json)

theorem keeps_iff (key : String) :
    Keeps key expected row ↔ meets (conditions [(key, expected)]) (.object row) = true := by
  constructor
  · intro keeps
    obtain ⟨kept, filtered, member⟩ := keeps [.object row] (List.mem_singleton_self _)
    cases filtered
    exact (List.mem_filter.mp member).2
  · intro holds rows member
    exact ⟨_, rfl, List.mem_filter.mpr ⟨member, holds⟩⟩

/-- A parameter that begins with an underscore is no condition. -/
theorem keeps_of_hidden {key : String} (hidden : key.toList.head? = some '_') :
    Keeps key expected row := by
  have none : conditions [(key, expected)] = [] := by
    simp only [conditions, plainParams, List.filter_cons, hidden, bne_self_eq_false,
      Bool.false_eq_true, ↓reduceIte, List.filter_nil, List.map_nil]
  rw [keeps_iff, none]
  rfl

/-- So a filter by one condition keeps the rows for which it holds. -/
theorem keeps_iff_holds {key : String} (plain : key.toList.head? ≠ some '_') :
    Keeps key expected row ↔ (Condition.ofParam key expected).holds row = true := by
  have one : conditions [(key, expected)] = [.ofParam key expected] := by
    simp only [conditions, plainParams, List.filter_cons, bne_iff_ne.mpr plain, ↓reduceIte,
      List.filter_nil, List.map_cons, List.map_nil]
  rw [keeps_iff, one]
  simp only [meets, List.all_cons, List.all_nil, Bool.and_true]

/-- The name of an addressable field is a condition of equality. -/
theorem keeps_field_iff (addressable : Addressable field) (found : row.get? field = some actual) :
    Keeps field expected row ↔ Operator.eq.holds actual expected = true := by
  obtain ⟨visible, apart⟩ := addressable
  have plain : field.toList.head? ≠ some '_' := fun hidden => visible (by
    rw [List.head?_append, hidden, Option.some_or])
  have whole : ¬ ['_', '_'] <:+: field.toList := fun inside =>
    apart (inside.trans (List.prefix_append _ _).isInfix)
  rw [keeps_iff_holds expected plain, Condition.ofParam_whole whole]
  simp only [Condition.holds, found]

/-- The key of an addressable field is the condition that it says. -/
theorem keeps_key_iff (addressable : Addressable field) (found : row.get? field = some actual)
    (op : Operator) : Keeps (op.key field) expected row ↔ op.holds actual expected = true := by
  have visible := addressable.1
  rw [← op.head?_key] at visible
  rw [keeps_iff_holds expected visible, Condition.ofParam_key op addressable]
  simp only [Condition.holds, found]

/-- The keys of another field are no conditions, or conditions that nothing meets. -/
theorem keeps_key_of_not_addressable (row : Fields) (hidden : ¬ Addressable field) :
    (∀ op : Operator, Keeps (op.key field) expected row) ∨
      ∀ op : Operator, ¬ Keeps (op.key field) expected row := by
  by_cases visible : (field.toList ++ ['_']).head? = some '_'
  · exact .inl fun op => keeps_of_hidden expected (op.head?_key field ▸ visible)
  · refine .inr fun op keeps => ?_
    have split : splitKey (field.toList ++ ['_']) ≠ none := fun none =>
      hidden ⟨visible, (splitKey_eq_none_iff _).mp none⟩
    obtain ⟨⟨name, rest⟩, split⟩ := Option.ne_none_iff_exists'.mp split
    have unknown : Operator.ofName? (String.ofList (rest ++ '_' :: op.name.toList)) = none :=
      Operator.ofName?_eq_none (List.mem_append_right _ (List.mem_cons_self ..))
    rw [← op.head?_key] at visible
    rw [keeps_iff_holds expected visible] at keeps
    simp only [Condition.ofParam, op.toList_key, splitKey_append _ split, unknown,
      Condition.holds] at keeps
    split at keeps
    next none => cases none
    next => cases keeps

end Kept

/-! ## Blurred words -/

/-- The numbers are different signed words with the same nearest double. -/
def Blurred (a b : Number) : Prop :=
  ∃ i j, a.toSigned? = some i ∧ b.toSigned? = some j ∧ i ≠ j ∧ a.toDouble.cmp b.toDouble = .eq

/-- Numbers that are not blurred are the same if none is before the other. -/
theorem sameValue_iff_of_not_blurred {a b : Number} (clear : ¬ Blurred a b) :
    sameValue (.number a) (.number b) = true ↔ a.toDouble.cmp b.toDouble = .eq := by
  rw [sameValue]
  split
  next i j left right =>
    rw [beq_iff_eq]
    constructor
    · rintro rfl
      rw [Number.toSigned?_inj left right, Double.cmp_eq_iff]
    · intro same
      exact Decidable.byContradiction fun other => clear ⟨i, j, left, right, other, same⟩
  next => exact beq_iff_eq

theorem sameValue_of_blurred {a b : Number} (blurred : Blurred a b) :
    sameValue (.number a) (.number b) = false := by
  obtain ⟨i, j, left, right, other, -⟩ := blurred
  simp only [sameValue, left, right, beq_eq_false_iff_ne, ne_eq, other, not_false_eq_true]

theorem Blurred.cmp_eq {a b : Number} (blurred : Blurred a b) :
    a.toDouble.cmp b.toDouble = .eq := by
  obtain ⟨_, _, _, _, _, same⟩ := blurred
  exact same

/-- Words up to 2⁵³ are not blurred. -/
theorem not_blurred_of_small {a b : Number} {i j : Int} (left : a.toSigned? = some i)
    (right : b.toSigned? = some j) (smallLeft : i.natAbs ≤ twoTo 53)
    (smallRight : j.natAbs ≤ twoTo 53) : ¬ Blurred a b := by
  rintro ⟨i', j', left', right', other, same⟩
  obtain rfl := Option.some.inj (left.symm.trans left')
  obtain rfl := Option.some.inj (right.symm.trans right')
  rw [Double.cmp_eq_iff, Number.units_toDouble_of_small left smallLeft,
    Number.units_toDouble_of_small right smallRight] at same
  have pos : (twoTo 1074 : Int) ≠ 0 := Int.natCast_ne_zero.mpr (Nat.ne_of_gt (twoTo_pos 1074))
  exact other (Int.eq_of_mul_eq_mul_right pos same)

/-! ## Comparisons -/

/-- The comparisons of a field with a value go together for a row: exactly one of same, less and
greater keeps it, and the other three are made up of these. -/
@[mk_iff] structure Consistent (field : String) (expected : Json) (row : Fields) : Prop where
  one :
    (Keeps field expected row ∧ ¬ Keeps (Operator.lt.key field) expected row ∧
      ¬ Keeps (Operator.gt.key field) expected row) ∨
    (¬ Keeps field expected row ∧ Keeps (Operator.lt.key field) expected row ∧
      ¬ Keeps (Operator.gt.key field) expected row) ∨
    (¬ Keeps field expected row ∧ ¬ Keeps (Operator.lt.key field) expected row ∧
      Keeps (Operator.gt.key field) expected row)
  ne : Keeps (Operator.ne.key field) expected row ↔ ¬ Keeps field expected row
  lte : Keeps (Operator.lte.key field) expected row ↔
    Keeps (Operator.lt.key field) expected row ∨ Keeps field expected row
  gte : Keeps (Operator.gte.key field) expected row ↔
    Keeps (Operator.gt.key field) expected row ∨ Keeps field expected row

section Comparisons

variable {field : String} {row : Fields} {a : Number}

theorem consistent_iff_same (addressable : Addressable field)
    (found : row.get? field = some (.number a)) (b : Number) :
    Consistent field (.number b) row ↔
      (sameValue (.number a) (.number b) = true ↔ a.toDouble.cmp b.toDouble = .eq) := by
  simp only [consistent_iff, keeps_field_iff (.number b) addressable found,
    keeps_key_iff (.number b) addressable found, Operator.holds, compare?]
  cases a.toDouble.cmp b.toDouble <;> cases sameValue (.number a) (.number b) <;> decide

/-- A field whose comparisons agree can be named in a condition. -/
theorem addressable_of_consistent {expected : Json} (consistent : Consistent field expected row) :
    Addressable field := by
  refine Decidable.byContradiction fun hidden => ?_
  obtain ⟨one, ne, lte, -⟩ := consistent
  rcases keeps_key_of_not_addressable expected row hidden with all | none
  · rcases one with ⟨-, notLess, -⟩ | ⟨-, -, notGreater⟩ | ⟨-, notLess, -⟩
    · exact notLess (all .lt)
    · exact notGreater (all .gt)
    · exact notLess (all .lt)
  · have same : Keeps field expected row :=
      Classical.byContradiction fun other => none .ne (ne.mpr other)
    exact none .lte (lte.mpr (.inr same))

/-- **Comparisons of numbers go together, but for signed words that are blurred.** A field has to
have a name that keys can be made from. Then its comparisons with a number go together unless the
two are different signed words with the same nearest double: equality tells these apart, and the
order does not. Words up to 2⁵³ have doubles of their own. -/
theorem comparisons_are_consistent_iff (found : row.get? field = some (.number a)) (b : Number) :
    (Consistent field (.number b) row ↔ Addressable field ∧ ¬ Blurred a b) ∧
    (Addressable field → Blurred a b →
      (¬ Keeps field (.number b) row ∧ ¬ Keeps (Operator.lt.key field) (.number b) row ∧
        ¬ Keeps (Operator.gt.key field) (.number b) row) ∧
      Keeps (Operator.ne.key field) (.number b) row ∧
      Keeps (Operator.lte.key field) (.number b) row ∧
      Keeps (Operator.gte.key field) (.number b) row) ∧
    (∀ i j, a.toSigned? = some i → b.toSigned? = some j →
      i.natAbs ≤ 9007199254740992 → j.natAbs ≤ 9007199254740992 → ¬ Blurred a b) := by
  refine ⟨⟨fun consistent => ?_, fun ⟨addressable, clear⟩ => ?_⟩, fun addressable blurred => ?_,
    fun _ _ left right => not_blurred_of_small left right⟩
  · have addressable := addressable_of_consistent consistent
    refine ⟨addressable, fun blurred => ?_⟩
    have same := ((consistent_iff_same addressable found b).mp consistent).mpr blurred.cmp_eq
    rw [sameValue_of_blurred blurred] at same
    cases same
  · exact (consistent_iff_same addressable found b).mpr (sameValue_iff_of_not_blurred clear)
  · simp only [keeps_field_iff (.number b) addressable found,
      keeps_key_iff (.number b) addressable found, Operator.holds, compare?,
      sameValue_of_blurred blurred, blurred.cmp_eq]
    decide

end Comparisons

/-- The number of a row, with a neighbour that has the same double. -/
def counted : Fields := [("count", .number (.integer 9007199254740993 (by decide)))]

/-- It goes together with numbers that are far enough away. -/
theorem counted_is_consistent :
    Consistent "count" (.number (.integer 9007199254740991 (by decide))) counted := by
  refine (comparisons_are_consistent_iff rfl _).1.mpr ⟨by decide, ?_⟩
  rintro ⟨i, j, -, -, -, same⟩
  exact absurd same (by decide +kernel)

/-- It is not the same as its neighbour, nor less or greater. -/
theorem counted_is_kept_by_none :
    ¬ Keeps "count" (.number (.integer 9007199254740992 (by decide))) counted ∧
    ¬ Keeps "count__lt" (.number (.integer 9007199254740992 (by decide))) counted ∧
    ¬ Keeps "count__gt" (.number (.integer 9007199254740992 (by decide))) counted ∧
    Keeps "count__lte" (.number (.integer 9007199254740992 (by decide))) counted := by
  simp only [keeps_iff]
  decide +kernel

end Rows

end Pipework
