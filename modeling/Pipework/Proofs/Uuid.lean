import Pipework.Proofs.Json.Reading
import Pipework.Uuid

/-!
# Written identifiers

The text of an identifier is 32 hexadecimal digits in five groups, and reading takes them together
again. So different identifiers have different texts.
-/

namespace Pipework.Uuid

/-! ## Hexadecimal digits -/

/-- One digit more of a number. -/
theorem hexNumber?_append_digit {cs : List Char} {n d : Nat} (number : hexNumber? cs = some n)
    (small : d < 16) : hexNumber? (cs ++ [d.digitChar]) = some (16 * n + d) := by
  unfold hexNumber? at number ⊢
  rw [List.foldlM_append, number]
  simp only [List.foldlM_cons, List.foldlM_nil, Json.hexValue?_digitChar small, Option.map_some,
    Option.bind_eq_bind, Option.bind_some, Option.pure_def]

/-- Zeros in front do not change a number. -/
theorem hexNumber?_zeros_append (k : Nat) (cs : List Char) :
    hexNumber? (List.replicate k '0' ++ cs) = hexNumber? cs := by
  induction k with
  | zero => rfl
  | succ k ih => exact ih

/-- The digits of a number denote it. -/
theorem hexNumber?_toDigits (n : Nat) : hexNumber? (Nat.toDigits 16 n) = some n := by
  induction n using Nat.strongRecOn with
  | ind n ih =>
    rw [Nat.toDigits_eq_if (by decide)]
    split
    next small =>
      have none : hexNumber? [] = some 0 := rfl
      have one := hexNumber?_append_digit none small
      rwa [List.nil_append, Nat.mul_zero, Nat.zero_add] at one
    next large =>
      rw [hexNumber?_append_digit (ih (n / 16) (by omega)) (Nat.mod_lt n (by decide)),
        Nat.div_add_mod]

theorem hexNumber?_digits (id : Uuid) : hexNumber? id.digits = some id.value.toNat := by
  rw [digits, hexNumber?_zeros_append, hexNumber?_toDigits]

theorem length_digits (id : Uuid) : id.digits.length = 32 := by
  have : (Nat.toDigits 16 id.value.toNat).length ≤ 32 :=
    (Nat.length_toDigits_le_iff (by decide) (by decide)).mpr id.value.isLt
  rw [digits, List.length_append, List.length_replicate]
  omega

/-- A character that is no hexadecimal digit is not among the digits. -/
theorem notMem_digits (id : Uuid) {c : Char} (other : Json.hexValue? c = none) :
    c ∉ id.digits := by
  intro mem
  obtain ⟨front, back, split⟩ := List.append_of_mem mem
  have number := id.hexNumber?_digits
  rw [split, hexNumber?, List.foldlM_append] at number
  obtain ⟨n, -, number⟩ := Option.bind_eq_some_iff.mp number
  rw [List.foldlM_cons, other, Option.map_none] at number
  cases number

/-! ## Groups -/

/-- The text of an identifier has its digits in five groups. -/
theorem exists_groups (id : Uuid) : ∃ a b c d e : List Char,
    id.digits = a ++ (b ++ (c ++ (d ++ e))) ∧ a.length = 8 ∧ b.length = 4 ∧ c.length = 4 ∧
      d.length = 4 ∧ e.length = 12 ∧
      id.text.toList = a ++ '-' :: (b ++ '-' :: (c ++ '-' :: (d ++ '-' :: e))) := by
  have length := id.length_digits
  refine ⟨id.digits.take 8, (id.digits.drop 8).take 4, (id.digits.drop 12).take 4,
    (id.digits.drop 16).take 4, (id.digits.drop 20).take 12, ?_, ?_, ?_, ?_, ?_, ?_, ?_⟩
  · have front (k l : Nat) : (id.digits.drop k).take l ++ id.digits.drop (k + l) =
        id.digits.drop k := by
      rw [← List.drop_drop, List.take_append_drop]
    have last : (id.digits.drop 20).take 12 = id.digits.drop 20 :=
      List.take_of_length_le (by rw [List.length_drop]; omega)
    rw [last, front 16 4, front 12 4, front 8 4, List.take_append_drop]
  all_goals try (simp only [List.length_take, List.length_drop, length]; decide)
  have dash : "-".toList = ['-'] := rfl
  simp only [text, String.intercalate_cons_cons, String.intercalate_singleton,
    String.toList_append, String.toList_ofList, dash, List.append_assoc, List.drop_zero,
    List.singleton_append]

/-- Where no hyphen has its place and none stands, nothing is amiss. -/
theorem all_group (isPlace : Nat → Bool) {group : List Char} {start : Nat}
    (none : '-' ∉ group) (apart : ∀ i, start ≤ i → i < start + group.length → isPlace i = false) :
    ((group.zipIdx start).all fun (c, i) => (c == '-') == isPlace i) = true := by
  rw [List.all_eq_true]
  intro (c, i) mem
  have ⟨from_start, to_end, char⟩ := List.mem_zipIdx mem
  have other : c ≠ '-' := by
    rintro rfl
    exact none (char ▸ List.getElem_mem _)
  simp only [apart i from_start (by omega), beq_eq_false_iff_ne.mpr other, beq_self_eq_true]

/-- Five groups with hyphens between them are the digits in them. -/
theorem groupedDigits?_groups {a b c d e : List Char} (none : '-' ∉ a ++ (b ++ (c ++ (d ++ e))))
    (ha : a.length = 8) (hb : b.length = 4) (hc : c.length = 4) (hd : d.length = 4)
    (he : e.length = 12) :
    groupedDigits? (a ++ '-' :: (b ++ '-' :: (c ++ '-' :: (d ++ '-' :: e)))) =
      some (a ++ (b ++ (c ++ (d ++ e)))) := by
  simp only [List.mem_append, not_or] at none
  obtain ⟨na, nb, nc, nd, ne⟩ := none
  have kept {group : List Char} (none : '-' ∉ group) : group.filter (· != '-') = group :=
    List.filter_eq_self.mpr fun c mem => bne_iff_ne.mpr fun same => none (same ▸ mem)
  have length : (a ++ '-' :: (b ++ '-' :: (c ++ '-' :: (d ++ '-' :: e)))).length = 36 := by
    simp only [List.length_append, List.length_cons, ha, hb, hc, hd, he]
  obtain ⟨isPlace, isPlace_eq⟩ : ∃ isPlace : Nat → Bool,
      isPlace = fun i => i == 8 || i == 13 || i == 18 || i == 23 := ⟨_, rfl⟩
  have places : ((a ++ '-' :: (b ++ '-' :: (c ++ '-' :: (d ++ '-' :: e)))).zipIdx.all
      fun (c, i) => (c == '-') == isPlace i) = true := by
    have hyphen (i : Nat) (place : i = 8 ∨ i = 13 ∨ i = 18 ∨ i = 23) : isPlace i = true := by
      rcases place with rfl | rfl | rfl | rfl <;> rw [isPlace_eq] <;> rfl
    have apart (i : Nat) (other : i ≠ 8 ∧ i ≠ 13 ∧ i ≠ 18 ∧ i ≠ 23) : isPlace i = false := by
      simp only [isPlace_eq, beq_eq_false_iff_ne.mpr other.1, beq_eq_false_iff_ne.mpr other.2.1,
        beq_eq_false_iff_ne.mpr other.2.2.1, beq_eq_false_iff_ne.mpr other.2.2.2, Bool.or_self]
    simp only [List.zipIdx_append, List.zipIdx_cons, List.all_append, List.all_cons, ha, hb, hc, hd,
      Bool.and_eq_true, beq_self_eq_true, beq_iff_eq]
    refine ⟨all_group isPlace na fun i _ _ => apart i (by omega), ?_,
      all_group isPlace nb fun i _ _ => apart i (by omega), ?_,
      all_group isPlace nc fun i _ _ => apart i (by omega), ?_,
      all_group isPlace nd fun i _ _ => apart i (by omega), ?_,
      all_group isPlace ne fun i _ _ => apart i (by omega)⟩
    all_goals exact (hyphen _ (by decide)).symm
  have digits : (a ++ '-' :: (b ++ '-' :: (c ++ '-' :: (d ++ '-' :: e)))).filter (· != '-') =
      a ++ (b ++ (c ++ (d ++ e))) := by
    simp only [List.filter_append, List.filter_cons, bne_self_eq_false, Bool.false_eq_true,
      ↓reduceIte, kept na, kept nb, kept nc, kept nd, kept ne]
  rw [isPlace_eq] at places
  simp only [groupedDigits?, length, places, digits, beq_self_eq_true, Bool.and_self, ↓reduceIte]

/-! ## Reading -/

/-- The text of an identifier is read as that identifier. -/
theorem parse_text (id : Uuid) : parse id.text = .ok id := by
  obtain ⟨a, b, c, d, e, split, ha, hb, hc, hd, he, text⟩ := id.exists_groups
  have grouped := groupedDigits?_groups (split ▸ id.notMem_digits rfl) ha hb hc hd he
  rw [← text, ← split] at grouped
  have length : id.text.toList.length = 36 := by
    simp only [text, List.length_append, List.length_cons, ha, hb, hc, hd, he]
  -- The first character is a digit, so that there are neither braces nor a scheme.
  have bare : unwrap id.text.toList = (id.text.toList, 0, true) := by
    obtain ⟨first, rest, rfl⟩ := List.exists_cons_of_length_eq_add_one ha
    have other {c : Char} (other : Json.hexValue? c = none) : first ≠ c := by
      rintro rfl
      exact id.notMem_digits other (split ▸ List.mem_cons_self)
    have brace : (some first == some '{') = false :=
      beq_eq_false_iff_ne.mpr fun same => other rfl (Option.some.inj same)
    have noScheme (cs : List Char) : ((first :: cs).take 9 == scheme) = false :=
      beq_eq_false_iff_ne.mpr fun same => other rfl (List.cons.inj same).1
    rw [text, List.cons_append]
    simp only [unwrap, List.head?_cons, brace, noScheme, Bool.and_false, Bool.false_and,
      Bool.false_eq_true, ↓reduceIte]
  have found : digitsOf? id.text.toList = some id.digits := by
    simp only [digitsOf?, length, bare, grouped, Nat.reduceEqDiff, true_or, ↓reduceIte]
  rw [parse, found, Option.bind_some, hexNumber?_digits]
  show Except.ok (⟨BitVec.ofNat 128 id.value.toNat⟩ : Uuid) = .ok id
  rw [BitVec.ofNat_toNat, BitVec.setWidth_eq]

/-- Different identifiers have different texts. -/
theorem text_inj {a b : Uuid} : a.text = b.text ↔ a = b := by
  refine ⟨fun same => ?_, congrArg text⟩
  have read := a.parse_text
  rw [same, parse_text] at read
  exact (Except.ok.inj read).symm

end Pipework.Uuid
