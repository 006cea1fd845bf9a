import Mathlib.Data.List.Induction
import Pipework.Proofs.Number.Order
import Pipework.Proofs.Rows.Sum

/-!
# Metrics beyond the finite range

Numbers are added as doubles from left to right, and what counts is again the way and not the total:
once the next number takes the sum from half a step beyond the greatest double on, there is no sum.
The mean is taken of the same sum, so it is lost with it, though the mean itself would never leave
the range. A least and a greatest number are always found, and a sum of signed whole numbers is lost
only if it is taken of their doubles.

Whole numbers do not come that far in any list that can be held, and neither do doubles up to 2⁹⁷⁰.
-/

namespace Pipework.Rows

/-! ## Sums of doubles -/

/-- On the way from left to right some number takes the sum out of the finite range. -/
def Overflows (values : List Number) : Prop :=
  ∃ front n total, front ++ [n] <+: values ∧ doubleSum? front = some total ∧
    Double.limit ≤ (total.units + n.toDouble.units).natAbs

/-- The last number is added last. -/
theorem doubleSum?_concat (values : List Number) (n : Number) :
    doubleSum? (values ++ [n]) = (doubleSum? values).bind fun total => total.add? n.toDouble := by
  simp only [doubleSum?, Double.sum?, List.map_append, List.map_cons, List.map_nil,
    List.foldlM_append, List.foldlM_cons, List.foldlM_nil, bind_pure]
  rfl

/-- Without numbers nothing overflows. -/
theorem not_overflows_nil : ¬ Overflows [] := by
  rintro ⟨front, n, _, isFront, -⟩
  exact List.append_ne_nil_of_right_ne_nil front (List.cons_ne_nil n []) (List.prefix_nil.mp isFront)

/-- With one number more the way is longer by one step. -/
theorem overflows_concat (values : List Number) (n : Number) :
    Overflows (values ++ [n]) ↔ Overflows values ∨ ∃ total, doubleSum? values = some total ∧
      Double.limit ≤ (total.units + n.toDouble.units).natAbs := by
  constructor
  · rintro ⟨front, m, total, isFront, summed, beyond⟩
    rcases List.prefix_concat_iff.mp isFront with whole | isFront
    · obtain ⟨rfl, last⟩ := List.append_inj' whole rfl
      obtain rfl := List.singleton_inj.mp last
      exact .inr ⟨total, summed, beyond⟩
    · exact .inl ⟨front, m, total, isFront, summed, beyond⟩
  · rintro (⟨front, m, total, isFront, summed, beyond⟩ | ⟨total, summed, beyond⟩)
    · exact ⟨front, m, total, isFront.trans (List.prefix_append _ _), summed, beyond⟩
    · exact ⟨values, n, total, List.prefix_rfl, summed, beyond⟩

/-- There is no sum exactly if the way to it leaves the range. -/
theorem doubleSum?_eq_none_iff (values : List Number) :
    doubleSum? values = none ↔ Overflows values := by
  induction values using List.reverseRecOn with
  | nil => exact iff_of_false nofun not_overflows_nil
  | append_singleton values n ih =>
    rw [doubleSum?_concat, overflows_concat, ← ih]
    cases doubleSum? values with
    | none => exact iff_of_true rfl (.inl rfl)
    | some total =>
      simp only [Option.bind_some, Double.add?_eq_none_iff, reduceCtorEq, false_or,
        Option.some.injEq, exists_eq_left']

/-- Whole numbers are below 2⁶⁵ as doubles. -/
theorem magnitude_integer_le (i : Int) (inRange : InWordRange i) :
    (Number.integer i inRange).toDouble.magnitude ≤ twoTo 2044 := by
  obtain ⟨x, rounded⟩ := Double.exists_ofInt? inRange
  obtain ⟨bound, -, size⟩ := Double.exists_magnitude_eq (n := 1) (e := 2044) (by decide) (by decide)
    (by decide) false
  rw [Nat.one_mul] at size
  rw [Number.toDouble, rounded, Option.getD_some, (Double.magnitude_of_ofMagnitude rounded).2, ← size]
  apply Double.roundedMagnitude_le Nat.one_pos
  rw [size, Nat.mul_one]
  calc i.natAbs * twoTo 1074
    _ ≤ twoTo 64 * twoTo 1074 :=
      Nat.mul_le_mul_right _ (Double.natAbs_le_of_inWordRange inRange)
    _ = twoTo 1138 := (twoTo_add 64 1074).symm
    _ ≤ twoTo 2044 := twoTo_le_twoTo (by decide)

/-- Up to 2⁵³ numbers, of which the doubles are up to 2⁹⁷⁰, do not leave the range. -/
theorem not_overflows {values : List Number} (few : values.length ≤ twoTo 53)
    (small : ∀ x, .double x ∈ values → x.magnitude ≤ twoTo 2044) : ¬ Overflows values := by
  suffices sums : ∃ total, doubleSum? values = some total ∧
      total.magnitude ≤ values.length * twoTo 2044 by
    obtain ⟨total, summed, -⟩ := sums
    rw [← doubleSum?_eq_none_iff, summed]
    nofun
  induction values using List.reverseRecOn with
  | nil => exact ⟨_, rfl, Nat.zero_le _⟩
  | append_singleton values n ih =>
    rw [List.length_append, List.length_singleton] at few
    obtain ⟨total, summed, least⟩ := ih (by omega) fun x mem => small x (List.mem_append_left _ mem)
    obtain ⟨bound, -, size⟩ :=
      Double.exists_magnitude_eq (e := 2044) few (by decide) (by decide) false
    have last : n.toDouble.magnitude ≤ twoTo 2044 := by
      cases n with
      | integer i inRange => exact magnitude_integer_le i inRange
      | double x => exact small x (List.mem_append_right _ List.mem_cons_self)
    have le : (total.units + n.toDouble.units).natAbs ≤ bound.magnitude := by
      refine Nat.le_trans (Int.natAbs_add_le _ _) ?_
      rw [Double.natAbs_units, Double.natAbs_units, size, Nat.succ_mul]
      exact Nat.add_le_add least last
    obtain ⟨sum, added, sumLe⟩ := Double.exists_add? le
    refine ⟨sum, ?_, ?_⟩
    · rw [doubleSum?_concat, summed]
      exact added
    · rwa [List.length_append, List.length_singleton, ← size]

/-! ## Lost metrics -/

/-- The metric of these numbers is none: they are added as doubles and leave the finite range. -/
def Lost (m : Metric) (values : List Number) : Prop :=
  match m with
  | .sum => wholeSum? values = none ∧ Overflows values
  | .avg => Overflows values
  | .count | .min | .max => False

/-- A total is lost only by an overflow. -/
theorem Lost.overflows {m : Metric} {values : List Number} (lost : Lost m values) :
    Overflows values := by
  cases m with
  | sum => exact lost.2
  | avg => exact lost
  | _ => exact lost.elim

/-- A whole sum is a signed word. -/
theorem inSignedRange_of_wholeSum? {values : List Number} {total : Int}
    (summed : wholeSum? values = some total) : InSignedRange total := by
  rw [wholeSum?_eq] at summed
  cases values using List.reverseRecOn with
  | nil =>
    cases summed
    decide
  | append_singleton values n =>
    simp only [List.foldlM_append, List.foldlM_cons, List.foldlM_nil, bind_pure] at summed
    obtain ⟨before, -, added⟩ := Option.bind_eq_some_iff.mp summed
    obtain ⟨i, -, held⟩ := Option.bind_eq_some_iff.mp added
    obtain ⟨inRange, ⟨⟩⟩ := Option.ite_none_right_eq_some.mp held
    exact inRange

/-- A sum is null if it is lost, and a number otherwise. -/
theorem sum_lost_or_number (values : List Number) :
    (Lost .sum values ∧ sum values = .null) ∨
    (¬ Lost .sum values ∧ ∃ n, sum values = .number n) := by
  unfold sum
  cases whole : wholeSum? values with
  | some total =>
    have inRange := inSignedRange_of_wholeSum? whole
    have inWords : InWordRange total := ⟨inRange.1, by have := inRange.2; omega⟩
    refine .inr ⟨fun lost => ?_, .integer total inWords, ?_⟩
    · cases whole.symm.trans lost.1
    · rw [Option.bind_some, Number.ofInt?, dif_pos inWords]
  | none =>
    have lost_iff : Lost .sum values ↔ doubleSum? values = none :=
      (and_iff_right whole).trans (doubleSum?_eq_none_iff values).symm
    rw [lost_iff]
    cases doubleSum? values with
    | none => exact .inl ⟨rfl, rfl⟩
    | some total => exact .inr ⟨Option.some_ne_none total, _, rfl⟩

/-- An average is null if it is lost, and a number otherwise. -/
theorem average_lost_or_number (values : List Number) :
    (Lost .avg values ∧ average values = .null) ∨
    (¬ Lost .avg values ∧ ∃ n, average values = .number n) := by
  have lost_iff : Lost .avg values ↔ doubleSum? values = none := (doubleSum?_eq_none_iff values).symm
  rw [lost_iff]
  cases values with
  | nil => exact .inr ⟨nofun, _, rfl⟩
  | cons n ns =>
    rw [average, if_neg (by simp only [List.isEmpty_cons, Bool.false_eq_true, not_false_eq_true])]
    cases doubleSum? (n :: ns) with
    | none => exact .inl ⟨rfl, rfl⟩
    | some total =>
      obtain ⟨mean, divided⟩ := total.exists_divNat? (n := (n :: ns).length) (Nat.succ_pos _)
      refine .inr ⟨nofun, .double mean, ?_⟩
      rw [Option.bind_some, divided]
      rfl

/-- A metric is a number unless it is lost, and then it is null. -/
theorem of_lost_or_number (m : Metric) (values : List Number) :
    (Lost m values ∧ m.of values = .null) ∨
    (¬ Lost m values ∧ ∃ n, m.of values = .number n) := by
  cases m with
  | sum => exact sum_lost_or_number values
  | avg => exact average_lost_or_number values
  | count => exact .inr ⟨id, _, rfl⟩
  | min | max => cases values <;> exact .inr ⟨id, _, rfl⟩

end Pipework.Rows
