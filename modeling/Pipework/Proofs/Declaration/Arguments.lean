import Mathlib.Data.List.Basic
import Pipework.Declaration
import Pipework.Proofs.Json.Fields
import Pipework.Proofs.Number.Numeral
import Pipework.Proofs.Sorting

/-!
# Arguments without a name

A call keeps an argument without a name under the key `_arg` and its number. `Numbers` says which
keys these are, and `Arguments` which values a call has under them: in the order of their numbers,
and those of one number as they stand in the call. A call has one list of arguments, and its values
are what the declarations are given (`Arguments.positionals`).
-/

namespace Pipework

/-! ## Keys of arguments -/

/-- The key is `_arg` and this number, in decimal digits that may follow a plus sign. Numbers of
more than 64 bits count no arguments. -/
def Numbers (key : String) (n : Nat) : Prop :=
  ∃ sign digits, key = String.ofList ("_arg".toList ++ (sign ++ digits)) ∧
    (sign = [] ∨ sign = ['+']) ∧ digits ≠ [] ∧ (∀ c ∈ digits, isAsciiDigit c = true) ∧
    digitsValue digits = n ∧ n < 2 ^ 64

/-- Without the plus sign that may stand in front. -/
def withoutPlus : List Char → List Char
  | '+' :: cs => cs
  | cs => cs

theorem exists_withoutPlus (cs : List Char) :
    ∃ sign, (sign = [] ∨ sign = ['+']) ∧ cs = sign ++ withoutPlus cs := by
  unfold withoutPlus
  split
  next rest => exact ⟨['+'], .inr rfl, rfl⟩
  next => exact ⟨[], .inl rfl, rfl⟩

theorem withoutPlus_append {sign digits : List Char} (signed : sign = [] ∨ sign = ['+'])
    (all : ∀ c ∈ digits, isAsciiDigit c = true) : withoutPlus (sign ++ digits) = digits := by
  rcases signed with rfl | rfl
  · unfold withoutPlus
    split
    next rest plus =>
      rw [List.nil_append] at plus
      exact absurd (all '+' (plus ▸ List.mem_cons_self)) (by decide)
    next => rfl
  · rfl

/-- What is read behind `_arg`. -/
theorem positionalIndex?_ofList (cs : List Char) :
    positionalIndex? (String.ofList ("_arg".toList ++ cs)) =
      if (withoutPlus cs).isEmpty || !(withoutPlus cs).all isAsciiDigit then none
      else if digitsValue (withoutPlus cs) < 2 ^ 64 then some (digitsValue (withoutPlus cs))
      else none := by
  rw [positionalIndex?, String.toList_ofList]
  rfl

/-- A key is read as the number that stands behind its `_arg`. -/
theorem positionalIndex?_eq_some {key : String} {n : Nat} :
    positionalIndex? key = some n ↔ Numbers key n := by
  constructor
  · intro read
    have spelled : ∃ cs, key = String.ofList ("_arg".toList ++ cs) := by
      unfold positionalIndex? at read
      split at read
      next cs spelled => exact ⟨cs, by rw [← String.ofList_toList (s := key), spelled]; rfl⟩
      next => cases read
    obtain ⟨cs, rfl⟩ := spelled
    obtain ⟨sign, signed, whole⟩ := exists_withoutPlus cs
    rw [positionalIndex?_ofList] at read
    split at read
    next => cases read
    next proper =>
      rw [Bool.or_eq_true, not_or, List.isEmpty_iff, Bool.not_eq_true', Bool.not_eq_false,
        List.all_eq_true] at proper
      split at read
      next small =>
        cases read
        exact ⟨sign, withoutPlus cs, by rw [← whole], signed, proper.1, proper.2, rfl, small⟩
      next => cases read
  · rintro ⟨sign, digits, rfl, signed, nonempty, all, rfl, small⟩
    have proper : (digits.isEmpty || !digits.all isAsciiDigit) = false := by
      rw [Bool.or_eq_false_iff, List.isEmpty_eq_false_iff, Bool.not_eq_false', List.all_eq_true]
      exact ⟨nonempty, all⟩
    rw [positionalIndex?_ofList, withoutPlus_append signed all, proper, if_neg Bool.false_ne_true,
      if_pos small]

namespace Params

/-! ## The arguments of a call -/

/-- What a call gives without a name, each value with its number: in the order of the numbers, and
under one number what the call has there, as it stands. -/
structure Arguments (params : Params) (args : List (Nat × Json)) : Prop where
  ordered : args.Pairwise fun a b => a.1 ≤ b.1
  same : ∀ n, (args.filter (·.1 == n)).map (·.2) =
    (params.filter fun (key, _) => positionalIndex? key == some n).map (·.2)

/-- The values without a name with their numbers, as they stand in the call. -/
def numbered (params : Params) : List (Nat × Json) :=
  params.filterMap fun (key, value) => (positionalIndex? key).map fun n => (n, value)

theorem filter_numbered (params : Params) (n : Nat) :
    (params.numbered.filter (·.1 == n)).map (·.2) =
      (params.filter fun (key, _) => positionalIndex? key == some n).map (·.2) := by
  induction params with
  | nil => rfl
  | cons entry params ih =>
    obtain ⟨key, value⟩ := entry
    unfold numbered at ih ⊢
    cases read : positionalIndex? key with
    | none =>
      simp only [List.filterMap_cons, List.filter_cons, read, Option.map_none]
      exact ih
    | some m =>
      simp only [List.filterMap_cons, List.filter_cons, read, Option.map_some, Option.some_beq_some]
      cases m == n with
      | false => exact ih
      | true => exact congrArg (value :: ·) ih

/-- Sorting by number keeps those of one number as they stand. -/
theorem filter_mergeSort (args : List (Nat × Json)) (n : Nat) :
    (args.mergeSort fun a b => decide (a.1 ≤ b.1)).filter (·.1 == n) = args.filter (·.1 == n) :=
  filter_mergeSort_of_alike trans total (fun _ _ ha hb =>
    decide_eq_true (Nat.le_of_eq ((eq_of_beq ha).trans (eq_of_beq hb).symm))) args
where
  trans (a b c : Nat × Json) (ab : decide (a.1 ≤ b.1) = true) (bc : decide (b.1 ≤ c.1) = true) :
      decide (a.1 ≤ c.1) = true :=
    decide_eq_true (Nat.le_trans (of_decide_eq_true ab) (of_decide_eq_true bc))
  total (a b : Nat × Json) : (decide (a.1 ≤ b.1) || decide (b.1 ≤ a.1)) = true := by
    rw [Bool.or_eq_true]
    exact (Nat.le_total _ _).imp decide_eq_true decide_eq_true

/-- Every call has arguments: the ones sorted out of it. -/
theorem arguments_mergeSort (params : Params) :
    Arguments params (params.numbered.mergeSort fun a b => decide (a.1 ≤ b.1)) where
  ordered := (List.pairwise_mergeSort filter_mergeSort.trans filter_mergeSort.total
    params.numbered).imp of_decide_eq_true
  same n := by rw [filter_mergeSort, filter_numbered]

/-- What stands in one of two lists of arguments with the same values under each number has its
number in the other. -/
theorem exists_mem_of_filter {as bs : List (Nat × Json)} {a : Nat × Json}
    (same : (as.filter (·.1 == a.1)).map (·.2) = (bs.filter (·.1 == a.1)).map (·.2))
    (mem : a ∈ as) : ∃ b ∈ bs, b.1 = a.1 := by
  have here : a.2 ∈ (as.filter (·.1 == a.1)).map (·.2) :=
    List.mem_map_of_mem (List.mem_filter.mpr ⟨mem, beq_self_eq_true a.1⟩)
  rw [same] at here
  obtain ⟨b, there, -⟩ := List.mem_map.mp here
  exact ⟨b, (List.mem_filter.mp there).1, eq_of_beq (List.mem_filter.mp there).2⟩

/-- Lists in the order of their numbers are equal if each number has the same values. -/
theorem eq_of_filter {as bs : List (Nat × Json)} (ha : as.Pairwise fun a b => a.1 ≤ b.1)
    (hb : bs.Pairwise fun a b => a.1 ≤ b.1)
    (same : ∀ n, (as.filter (·.1 == n)).map (·.2) = (bs.filter (·.1 == n)).map (·.2)) :
    as = bs := by
  induction as generalizing bs with
  | nil =>
    cases bs with
    | nil => rfl
    | cons b bs =>
      obtain ⟨a, mem, -⟩ := exists_mem_of_filter (same b.1).symm List.mem_cons_self
      cases mem
  | cons a as ih =>
    cases bs with
    | nil =>
      obtain ⟨b, mem, -⟩ := exists_mem_of_filter (same a.1) List.mem_cons_self
      cases mem
    | cons b bs =>
      obtain ⟨firstA, orderedA⟩ := List.pairwise_cons.mp ha
      obtain ⟨firstB, orderedB⟩ := List.pairwise_cons.mp hb
      have number : a.1 = b.1 := by
        -- Each of the first numbers stands in the other list, so neither is before the other.
        obtain ⟨b', memB, eqA⟩ := exists_mem_of_filter (same a.1) List.mem_cons_self
        obtain ⟨a', memA, eqB⟩ := exists_mem_of_filter (same b.1).symm List.mem_cons_self
        have le : a.1 ≤ b.1 := by
          rcases List.mem_cons.mp memA with rfl | memA
          · exact Nat.le_of_eq eqB
          · exact eqB ▸ firstA a' memA
        have ge : b.1 ≤ a.1 := by
          rcases List.mem_cons.mp memB with rfl | memB
          · exact Nat.le_of_eq eqA
          · exact eqA ▸ firstB b' memB
        exact Nat.le_antisymm le ge
      obtain ⟨n, v⟩ := a
      obtain ⟨m, w⟩ := b
      obtain rfl : n = m := number
      obtain rfl : v = w := by
        have heads := same n
        simp only [List.filter_cons, beq_self_eq_true, ↓reduceIte, List.map_cons] at heads
        exact (List.cons.inj heads).1
      refine congrArg _ (ih orderedA orderedB fun k => ?_)
      have rest := same k
      simp only [List.filter_cons] at rest
      cases found : n == k with
      | false => simpa only [found, Bool.false_eq_true, ↓reduceIte] using rest
      | true =>
        simp only [found, ↓reduceIte, List.map_cons] at rest
        exact (List.cons.inj rest).2

/-- The values sorted out of a call are those of its arguments. -/
theorem Arguments.positionals {params : Params} {args : List (Nat × Json)}
    (arguments : Arguments params args) : params.positionals = args.map (·.2) := by
  have sorted := arguments_mergeSort params
  have eq : (params.numbered.mergeSort fun a b => decide (a.1 ≤ b.1)) = args :=
    eq_of_filter sorted.ordered arguments.ordered fun n => (sorted.same n).trans
      (arguments.same n).symm
  exact congrArg (List.map (·.2)) eq

end Params

end Pipework
