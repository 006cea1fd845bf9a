import Pipework.Proofs.Rows.Comparison

/-!
# What an argument of a filter asks for

The relations between values are stated first, without the program's tests of them (`Relates`), and
the tests decide them. Two numbers are the same if they are the same signed word, or if they have the
same nearest double and are not both signed words. Only numbers, texts and booleans have an order, and
each only among themselves.

An argument asks for a relation between the field of a row and its value. Which field and which
relation is read from its name, and `argument_is_condition_unless_hidden` goes through all names: a
name that begins with an underscore asks for nothing; a plain one asks for the same value; the key of
an operator on a field asks for its relation, if the name of the field is such that it is found again
in front of the first two underscores; every other name has two underscores in a row with no operator
behind them, and nothing meets what it asks for.
-/

namespace Pipework.Rows

/-! ## Relations -/

/-- Two values are the same. -/
inductive Same : Json → Json → Prop
  | word {a b : Number} {i : Int} (left : a.toSigned? = some i) (right : b.toSigned? = some i) :
    Same (.number a) (.number b)
  | double {a b : Number} (apart : a.toSigned? = none ∨ b.toSigned? = none)
      (units : a.toDouble.units = b.toDouble.units) : Same (.number a) (.number b)
  | other {a b : Json} (apart : ∀ m n, ¬ (a = .number m ∧ b = .number n))
      (equal : a.equal b = true) : Same a b

/-- A value is less than another of its kind. -/
inductive Less : Json → Json → Prop
  | number {a b : Number} (less : a.toDouble.units < b.toDouble.units) :
    Less (.number a) (.number b)
  | text {s t : String} (less : s < t) : Less (.string s) (.string t)
  | bool : Less (.bool false) (.bool true)

/-- Values of one kind of which neither is less. -/
inductive Level : Json → Json → Prop
  | number {a b : Number} (units : a.toDouble.units = b.toDouble.units) :
    Level (.number a) (.number b)
  | text (s : String) : Level (.string s) (.string s)
  | bool (b : Bool) : Level (.bool b) (.bool b)

/-- The value holds another: a text what is written for it, a list the value itself. -/
inductive Contains : Json → Json → Prop
  | text {s : String} {part : Json} (inside : part.display.toList <:+: s.toList) :
    Contains (.string s) part
  | list {items : List Json} {item part : Json} (mem : item ∈ items) (same : Same item part) :
    Contains (.array items) part

/-- The relation that an operator stands for. -/
def Operator.Relates (op : Operator) (actual expected : Json) : Prop :=
  match op with
  | .eq => Same actual expected
  | .ne => ¬ Same actual expected
  | .gt => Less expected actual
  | .gte => Less expected actual ∨ Level actual expected
  | .lt => Less actual expected
  | .lte => Less actual expected ∨ Level actual expected
  | .among => ∃ options, expected = .array options ∧ ∃ option ∈ options, Same actual option
  | .contains => Contains actual expected

theorem sameValue_iff {a b : Json} : sameValue a b = true ↔ Same a b := by
  have notNumbers : (∀ m n, ¬ (a = .number m ∧ b = .number n)) →
      (a.equal b = true ↔ Same a b) := by
    intro apart
    refine ⟨.other apart, fun same => ?_⟩
    cases same with
    | word | double => exact absurd ⟨rfl, rfl⟩ (apart _ _)
    | other _ equal => exact equal
  unfold sameValue
  split
  next m n =>
    split
    next i j left right =>
      rw [beq_iff_eq]
      constructor
      · rintro rfl
        exact .word left right
      · intro same
        cases same with
        | word left' right' =>
          exact Option.some.inj (left.symm.trans (left'.trans (right'.symm.trans right)))
        | double apart => simp only [left, right, reduceCtorEq, or_self] at apart
        | other apart => exact absurd ⟨rfl, rfl⟩ (apart _ _)
    next none =>
      have apart : m.toSigned? = Option.none ∨ n.toSigned? = Option.none := by
        cases left : m.toSigned? with
        | none => exact .inl rfl
        | some i =>
          cases right : n.toSigned? with
          | none => exact .inr rfl
          | some j => exact absurd right (none i j left)
      rw [beq_iff_eq, Double.cmp_eq_iff]
      refine ⟨.double apart, fun same => ?_⟩
      cases same with
      | word left right => simp only [left, right, reduceCtorEq, or_self] at apart
      | double _ units => exact units
      | other apart => exact absurd ⟨rfl, rfl⟩ (apart _ _)
  next other => exact notNumbers fun m n ⟨left, right⟩ => other m n left right

theorem compare?_eq_lt {a b : Json} : compare? a b = some .lt ↔ Less a b := by
  constructor
  · intro less
    unfold compare? at less
    split at less
    · exact .number (Int.compare_eq_lt.mp (Option.some.inj less))
    · exact .text (compareOfLessAndEq_eq_lt.mp (Option.some.inj less))
    next x y =>
      cases x <;> cases y <;> first | exact .bool | cases less
    · cases less
  · rintro (less | less | _)
    · exact congrArg some (Int.compare_eq_lt.mpr less)
    · exact congrArg some (compareOfLessAndEq_eq_lt.mpr less)
    · rfl

theorem compare?_eq_gt {a b : Json} : compare? a b = some .gt ↔ Less b a := by
  rw [← compare?_eq_lt]
  cases a <;> cases b <;> simp only [compare?, Double.cmp, Option.some.injEq, reduceCtorEq] <;>
    exact Std.OrientedCmp.gt_iff_lt

theorem compare?_eq_eq {a b : Json} : compare? a b = some .eq ↔ Level a b := by
  constructor
  · intro level
    unfold compare? at level
    split at level
    · exact .number (Std.LawfulEqOrd.compare_eq_iff_eq.mp (Option.some.inj level))
    · rw [Std.LawfulEqOrd.compare_eq_iff_eq.mp (Option.some.inj level)]
      exact .text _
    · rw [Std.LawfulEqOrd.compare_eq_iff_eq.mp (Option.some.inj level)]
      exact .bool _
    · cases level
  · rintro (units | s | b)
    · exact congrArg some (Std.LawfulEqOrd.compare_eq_iff_eq.mpr units)
    · exact congrArg some Std.ReflOrd.compare_self
    · exact congrArg some Std.ReflOrd.compare_self

namespace Operator

theorem holdsText_iff {part : List Char} :
    {cs : List Char} → (holdsText part cs = true ↔ part <:+: cs)
  | [] => by rw [holdsText, List.isEmpty_iff, List.infix_nil]
  | c :: cs => by
    rw [holdsText, Bool.or_eq_true, List.isPrefixOf_iff_prefix, holdsText_iff, List.infix_cons_iff]

/-- The program's test of an operator decides its relation. -/
theorem holds_iff {op : Operator} {actual expected : Json} :
    op.holds actual expected = true ↔ op.Relates actual expected := by
  cases op with
  | eq => exact sameValue_iff
  | ne => rw [holds, Bool.not_eq_true', ← Bool.not_eq_true, sameValue_iff, Relates]
  | gt => rw [holds, beq_iff_eq, compare?_eq_gt, Relates]
  | gte =>
    rw [holds, Bool.or_eq_true, beq_iff_eq, beq_iff_eq, compare?_eq_gt, compare?_eq_eq, Relates]
  | lt => rw [holds, beq_iff_eq, compare?_eq_lt, Relates]
  | lte =>
    rw [holds, Bool.or_eq_true, beq_iff_eq, beq_iff_eq, compare?_eq_lt, compare?_eq_eq, Relates]
  | among =>
    constructor
    · intro found
      cases expected with
      | array options =>
        obtain ⟨option, mem, same⟩ := List.any_eq_true.mp found
        exact ⟨options, rfl, option, mem, sameValue_iff.mp same⟩
      | _ => cases found
    · rintro ⟨options, rfl, option, mem, same⟩
      exact List.any_eq_true.mpr ⟨option, mem, sameValue_iff.mpr same⟩
  | contains =>
    constructor
    · intro found
      cases actual with
      | string s => exact .text (holdsText_iff.mp found)
      | array items =>
        obtain ⟨item, mem, same⟩ := List.any_eq_true.mp found
        exact .list mem (sameValue_iff.mp same)
      | _ => cases found
    · rintro (inside | ⟨mem, same⟩)
      · exact holdsText_iff.mpr inside
      · exact List.any_eq_true.mpr ⟨_, mem, sameValue_iff.mpr same⟩

instance (op : Operator) (actual expected : Json) : Decidable (op.Relates actual expected) :=
  decidable_of_iff _ holds_iff

end Operator

/-! ## Rows -/

/-- The row is an object whose field stands in the relation to the value. -/
def Meets (op : Operator) (field : String) (expected row : Json) : Prop :=
  ∃ actual, row.get? field = some actual ∧ op.Relates actual expected

instance (op : Operator) (field : String) (expected row : Json) :
    Decidable (Meets op field expected row) :=
  match found : row.get? field with
  | none => .isFalse fun ⟨_, there, _⟩ => nomatch found.symm.trans there
  | some actual =>
    decidable_of_iff (op.Relates actual expected)
      ⟨fun relates => ⟨actual, found, relates⟩, fun ⟨_, there, relates⟩ =>
        Option.some.inj (found.symm.trans there) ▸ relates⟩

/-- The program's test of a condition decides whether a row meets it. -/
theorem holds_iff_meets (op : Operator) (field : String) (expected : Json) (row : Fields) :
    Condition.holds ⟨field, some op, expected⟩ row = true ↔ Meets op field expected (.object row) := by
  have same : Json.get? (.object row) field = row.get? field := rfl
  rw [Meets, same, Condition.holds]
  cases row.get? field with
  | none => simp only [Bool.false_eq_true, reduceCtorEq, false_and, exists_false]
  | some actual => simp only [Operator.holds_iff, Option.some.injEq, exists_eq_left']

/-! ## Names of arguments -/

/-- The name begins with an underscore. -/
def Hidden (key : String) : Prop := key.toList.head? = some '_'

/-- The name is visible and has no two underscores in a row. -/
def Plain (key : String) : Prop := ¬ Hidden key ∧ ¬ ['_', '_'] <:+: key.toList

instance (key : String) : Decidable (Hidden key) := inferInstanceAs (Decidable (_ = _))

instance (key : String) : Decidable (Plain key) := inferInstanceAs (Decidable (_ ∧ _))

/-- A name is split at the first two underscores: there are none in what stands before them, not even
with the first of the two. -/
theorem eq_of_splitKey {cs field op : List Char} (split : splitKey cs = some (field, op)) :
    cs = field ++ '_' :: '_' :: op ∧ splitKey (field ++ ['_']) = none := by
  match cs with
  | [] => cases split
  | [_] => cases split
  | c :: d :: cs =>
    rw [splitKey_cons_cons] at split
    split at split
    next both =>
      cases split
      exact ⟨by rw [both.1, both.2, List.nil_append], rfl⟩
    next other =>
      obtain ⟨⟨field, op⟩, behind, same⟩ := Option.map_eq_some_iff.mp split
      cases same
      obtain ⟨text, none⟩ := eq_of_splitKey behind
      refine ⟨congrArg (c :: ·) text, ?_⟩
      -- What stands behind `c` begins with `d`, with the underscore added or not.
      obtain ⟨ds, begins⟩ : ∃ ds, field ++ ['_'] = d :: ds := by
        cases field with
        | nil => exact ⟨[], congrArg (· :: []) (List.cons.inj text).1.symm⟩
        | cons e field => exact ⟨field ++ ['_'], congrArg (· :: _) (List.cons.inj text).1.symm⟩
      rw [begins] at none
      rw [List.cons_append, begins, splitKey_cons_cons, if_neg other, none, Option.map_none]

/-- A name that is neither hidden nor plain, nor the key of an operator on a field, has two underscores
in a row with no operator behind the first such two. -/
theorem exists_splitKey {key : String} (visible : ¬ Hidden key) (split : ¬ Plain key)
    (other : ∀ (op : Operator) (field : String), Addressable field → key ≠ op.key field) :
    ∃ field rest, splitKey key.toList = some (field, rest) ∧
      Operator.ofName? (String.ofList rest) = none := by
  have inside : splitKey key.toList ≠ none := fun none =>
    split ⟨visible, (splitKey_eq_none_iff _).mp none⟩
  obtain ⟨⟨field, rest⟩, found⟩ := Option.ne_none_iff_exists'.mp inside
  refine ⟨field, rest, found, ?_⟩
  obtain ⟨text, none⟩ := eq_of_splitKey found
  cases named : Operator.ofName? (String.ofList rest) with
  | none => rfl
  | some op =>
    have name : op.name = String.ofList rest := by
      unfold Operator.ofName? at named
      have same := List.find?_some named
      exact eq_of_beq same
    refine absurd ?_ (other op (String.ofList field) ⟨?_, ?_⟩)
    · rw [← String.toList_inj, Operator.toList_key, name, text, String.toList_ofList,
        String.toList_ofList, List.append_assoc]
      rfl
    · intro hidden
      rw [String.toList_ofList] at hidden
      rw [Hidden, text] at visible
      cases field with
      | nil => exact visible rfl
      | cons c field => exact visible hidden
    · rw [String.toList_ofList]
      exact (splitKey_eq_none_iff _).mp none

/-! ## Filters of one argument -/

section Filter

variable (rows : List Json) (expected : Json)

/-- With one visible argument a filter keeps what meets its condition. -/
theorem filter_of_visible {key : String} (visible : ¬ Hidden key) :
    filter [(key, expected)] (.array rows) =
      .ok (.array (rows.filter (meets [.ofParam key expected]))) := by
  have one : conditions [(key, expected)] = [.ofParam key expected] := by
    simp only [conditions, plainParams, List.filter_cons, bne_iff_ne.mpr visible, ↓reduceIte,
      List.filter_nil, List.map_cons, List.map_nil]
  simp only [filter, one, keep]

/-- A condition with an operator is met by the rows that stand in its relation. -/
theorem meets_condition (op : Operator) (field : String) :
    meets [⟨field, some op, expected⟩] = fun row => decide (Meets op field expected row) := by
  funext row
  rw [Bool.eq_iff_iff, decide_eq_true_iff]
  cases row with
  | object fields =>
    rw [← holds_iff_meets, meets, List.all_cons, List.all_nil, Bool.and_true]
  | _ =>
    refine iff_of_false Bool.false_ne_true ?_
    rintro ⟨_, there, _⟩
    cases there

/-- A condition without an operator is met by nothing. -/
theorem meets_nothing (field : String) : meets [⟨field, none, expected⟩] = fun _ => false := by
  funext row
  cases row with
  | object fields =>
    simp only [meets, Condition.holds, List.all_cons, List.all_nil, Bool.and_true]
    split
    next none => cases none
    next => rfl
  | _ => rfl

/-- **A named argument is a condition on the field of its name, unless the name says otherwise.** With a
plain name the rows are kept whose field is the same as the value; with the key of an operator on an
addressable field, those whose field stands in the operator's relation to the value. Kept rows stay in
order. A hidden argument is no condition, so all objects are kept; and with any other name, which has
two underscores in a row but no operator behind them, nothing is kept. -/
theorem argument_is_condition_unless_hidden (key : String) :
    (Plain key → filter [(key, expected)] (.array rows) =
      .ok (.array (rows.filter fun row => decide (Meets .eq key expected row)))) ∧
    (∀ (op : Operator) (field : String), Addressable field → key = op.key field →
      filter [(key, expected)] (.array rows) =
        .ok (.array (rows.filter fun row => decide (Meets op field expected row)))) ∧
    (Hidden key → filter [(key, expected)] (.array rows) =
      .ok (.array (rows.filter fun row => row.object?.isSome))) ∧
    (¬ Hidden key → ¬ Plain key →
      (∀ (op : Operator) (field : String), Addressable field → key ≠ op.key field) →
      filter [(key, expected)] (.array rows) = .ok (.array [])) := by
  refine ⟨fun ⟨visible, whole⟩ => ?plain, fun op field addressable same => ?key,
    fun hidden => ?hidden, fun visible split other => ?other⟩
  case plain =>
    have read : Condition.ofParam key expected = ⟨key, some .eq, expected⟩ := by
      simp only [Condition.ofParam, (splitKey_eq_none_iff _).mpr whole]
    rw [filter_of_visible rows expected visible, read, meets_condition]
  case key =>
    obtain ⟨visible, apart⟩ := addressable
    have begun := splitKey_begun op.name.toList ((splitKey_eq_none_iff _).mpr apart)
    have read : Condition.ofParam key expected = ⟨field, some op, expected⟩ := by
      simp only [same, Condition.ofParam, op.toList_key, begun, String.ofList_toList,
        op.ofName?_name]
    rw [← op.head?_key, ← same] at visible
    rw [filter_of_visible rows expected visible, read, meets_condition]
  case hidden =>
    have none : conditions [(key, expected)] = [] := by
      simp only [conditions, plainParams, List.filter_cons, show key.toList.head? = some '_' from hidden,
        bne_self_eq_false, Bool.false_eq_true, ↓reduceIte, List.filter_nil, List.map_nil]
    have all : meets [] = fun row : Json => row.object?.isSome := by
      funext row
      cases row <;> rfl
    simp only [filter, none, keep, all]
  case other =>
    obtain ⟨field, rest, found, unknown⟩ := exists_splitKey visible split other
    have read : Condition.ofParam key expected = ⟨String.ofList field, none, expected⟩ := by
      simp only [Condition.ofParam, found, unknown]
    rw [filter_of_visible rows expected visible, read, meets_nothing,
      List.filter_eq_nil_iff.mpr fun _ _ => Bool.false_ne_true]

end Filter

/-- Two invoices and a note. -/
def invoices : List Json :=
  [.object [("_state", .string "paid"), ("net__sum", .string "7"), ("due", .string "2024-03")],
   .object [("_state", .string "open"), ("net__sum", .string "9"), ("due", .string "2024-05")],
   .string "checked"]

/-- The second invoice is the one that is due in May, and the one that is due after April. -/
theorem invoices_are_kept_by_due :
    Plain "due" ∧ Addressable "due" ∧
    filter [("due", .string "2024-05")] (.array invoices) =
      .ok (.array [invoices.getD 1 .null]) ∧
    filter [("due__gt", .string "2024-04")] (.array invoices) =
      .ok (.array [invoices.getD 1 .null]) := by
  obtain ⟨plain, -⟩ := argument_is_condition_unless_hidden invoices (.string "2024-05") "due"
  obtain ⟨-, keyed, -⟩ :=
    argument_is_condition_unless_hidden invoices (.string "2024-04") "due__gt"
  refine ⟨by decide, by decide, ?_, ?_⟩
  · rw [plain (by decide)]
    rfl
  · rw [keyed .gt "due" (by decide) (by decide)]
    rfl

/-- A hidden argument lets both invoices through, though only the first has its value in the field; and
one with two underscores in a row keeps neither, though the first has its value. -/
theorem invoices_are_not_kept_by_state :
    (filter [("_state", .string "paid")] (.array invoices) = .ok (.array (invoices.take 2)) ∧
      Meets .eq "_state" (.string "paid") (invoices.getD 0 .null) ∧
      ¬ Meets .eq "_state" (.string "paid") (invoices.getD 1 .null)) ∧
    filter [("net__sum", .string "7")] (.array invoices) = .ok (.array []) ∧
      Meets .eq "net__sum" (.string "7") (invoices.getD 0 .null) := by
  refine ⟨⟨rfl, ?_, ?_⟩, rfl, ?_⟩ <;> decide

end Pipework.Rows
