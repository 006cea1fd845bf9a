import Mathlib.Data.List.Induction
import Mathlib.Data.List.Nodup
import Pipework.Json.Basic
import Pipework.Proofs.Bindings

/-!
# Laws of fields

The fields of an object are a list of pairs. `Fields.Distinct` is the invariant of such a list, and
`insert` the one operation that builds it: inserting keeps the keys distinct, appends a key that is
not there yet, and leaves alone what it does not name. From these the two facts that readers and
printers need follow: pairs with distinct keys are their own fields, and the fields of any pairs
have distinct keys.
-/

namespace Pipework.Fields

/-- A key is contained exactly when it is one of the keys. -/
theorem contains_eq_true {fields : Fields} {key : String} :
    fields.contains key = true ↔ key ∈ fields.map Prod.fst := by
  simp only [contains, List.any_eq_true, beq_iff_eq, List.mem_map]

/-- A key that is not contained is none of the keys. -/
theorem contains_eq_false {fields : Fields} {key : String} :
    fields.contains key = false ↔ key ∉ fields.map Prod.fst := by
  rw [← contains_eq_true, Bool.not_eq_true]

instance (fields : Fields) : Decidable fields.Distinct :=
  inferInstanceAs (Decidable (fields.map Prod.fst).Nodup)

theorem distinct_nil : Distinct [] := List.nodup_nil

/-- A new key goes last. -/
theorem insert_of_notMem {fields : Fields} {key : String} (value : Json)
    (new : key ∉ fields.map Prod.fst) : fields.insert key value = fields ++ [(key, value)] := by
  induction fields with
  | nil => rfl
  | cons field fields ih =>
    obtain ⟨k, v⟩ := field
    simp only [List.map_cons, List.mem_cons, not_or] at new
    simp only [insert, beq_eq_false_iff_ne.mpr (Ne.symm new.1), Bool.false_eq_true, ↓reduceIte,
      ih new.2, List.cons_append]

/-- A known key gets the value where it stands. -/
theorem insert_between {front back : Fields} {key : String} {value : Json}
    (new : key ∉ front.map Prod.fst) (value' : Json) :
    (front ++ (key, value) :: back).insert key value' = front ++ (key, value') :: back := by
  induction front with
  | nil => simp only [List.nil_append, insert, beq_self_eq_true, ↓reduceIte]
  | cons field front ih =>
    obtain ⟨k, v⟩ := field
    simp only [List.map_cons, List.mem_cons, not_or] at new
    simp only [List.cons_append, insert, beq_eq_false_iff_ne.mpr (Ne.symm new.1),
      Bool.false_eq_true, ↓reduceIte, ih new.2]

/-- The keys after an insertion: the same ones, or one more at the end. -/
theorem keys_insert (fields : Fields) (key : String) (value : Json) :
    (fields.insert key value).map Prod.fst =
      if key ∈ fields.map Prod.fst then fields.map Prod.fst else fields.map Prod.fst ++ [key] := by
  by_cases known : key ∈ fields.map Prod.fst
  · rw [if_pos known]
    induction fields with
    | nil => cases known
    | cons field fields ih =>
      obtain ⟨k, v⟩ := field
      by_cases same : k = key
      · simp only [insert, same, beq_self_eq_true, ↓reduceIte, List.map_cons]
      · have rest : key ∈ fields.map Prod.fst := by
          simp only [List.map_cons, List.mem_cons] at known
          exact known.resolve_left (Ne.symm same)
        simp only [insert, beq_eq_false_iff_ne.mpr same, Bool.false_eq_true, ↓reduceIte,
          List.map_cons, ih rest]
  · rw [if_neg known, insert_of_notMem value known, List.map_append, List.map_singleton]

/-- Inserting keeps the keys distinct. -/
theorem Distinct.insert {fields : Fields} (distinct : fields.Distinct) (key : String)
    (value : Json) : (fields.insert key value).Distinct := by
  unfold Distinct at distinct ⊢
  rw [keys_insert]
  split
  · exact distinct
  next new =>
    have single : [key].Nodup := List.nodup_cons.mpr ⟨List.not_mem_nil, List.nodup_nil⟩
    refine List.nodup_append.mpr ⟨distinct, single, ?_⟩
    intro k hk l hl
    rw [List.mem_singleton.mp hl]
    exact fun same => new (same ▸ hk)

/-- What stands in fields after an insertion was there before or is the inserted pair. -/
theorem mem_insert {fields : Fields} {key : String} {value : Json} {field : String × Json}
    (mem : field ∈ fields.insert key value) : field ∈ fields ∨ field = (key, value) := by
  induction fields with
  | nil => exact .inr (List.mem_singleton.mp mem)
  | cons head fields ih =>
    obtain ⟨k, v⟩ := head
    unfold Fields.insert at mem
    split at mem
    next same =>
      rcases List.mem_cons.mp mem with rfl | mem
      · exact .inr (by rw [eq_of_beq same])
      · exact .inl (List.mem_cons_of_mem _ mem)
    next =>
      rcases List.mem_cons.mp mem with rfl | mem
      · exact .inl List.mem_cons_self
      · exact (ih mem).imp_left (List.mem_cons_of_mem _)

/-! ## Several insertions -/

/-- Inserts pairs in order. -/
def insertAll (fields : Fields) (pairs : List (String × Json)) : Fields :=
  pairs.foldl (fun fields (key, value) => fields.insert key value) fields

@[simp] theorem insertAll_nil (fields : Fields) : fields.insertAll [] = fields := rfl

@[simp] theorem insertAll_cons (fields : Fields) (key : String) (value : Json)
    (pairs : List (String × Json)) :
    fields.insertAll ((key, value) :: pairs) = (fields.insert key value).insertAll pairs := rfl

/-- Inserting several pairs keeps the keys distinct. -/
theorem Distinct.insertAll {fields : Fields} (distinct : fields.Distinct)
    (pairs : List (String × Json)) : (fields.insertAll pairs).Distinct := by
  induction pairs generalizing fields with
  | nil => exact distinct
  | cons pair pairs ih => exact ih (distinct.insert pair.1 pair.2)

/-- The fields of any pairs have distinct keys. -/
theorem distinct_ofList (pairs : List (String × Json)) : (ofList pairs).Distinct :=
  distinct_nil.insertAll pairs

/-- What stands in fields after several insertions was there before or is one of the pairs. -/
theorem mem_insertAll {fields : Fields} {pairs : List (String × Json)} {field : String × Json}
    (mem : field ∈ fields.insertAll pairs) : field ∈ fields ∨ field ∈ pairs := by
  induction pairs generalizing fields with
  | nil => exact .inl mem
  | cons pair pairs ih =>
    rcases ih mem with mem | mem
    · rcases mem_insert mem with mem | rfl
      · exact .inl mem
      · exact .inr List.mem_cons_self
    · exact .inr (List.mem_cons_of_mem _ mem)

/-- Pairs whose keys are new and distinct are appended as they are. -/
theorem insertAll_of_distinct {fields : Fields} {pairs : List (String × Json)}
    (distinct : (fields ++ pairs).Distinct) : fields.insertAll pairs = fields ++ pairs := by
  induction pairs generalizing fields with
  | nil => rw [insertAll_nil, List.append_nil]
  | cons pair pairs ih =>
    obtain ⟨key, value⟩ := pair
    have new : key ∉ fields.map Prod.fst := by
      unfold Distinct at distinct
      rw [List.map_append, List.map_cons] at distinct
      intro known
      exact (List.nodup_append.mp distinct).2.2 key known key List.mem_cons_self rfl
    have shifted : fields ++ (key, value) :: pairs = (fields ++ [(key, value)]) ++ pairs := by
      rw [List.append_assoc, List.singleton_append]
    rw [insertAll_cons, insert_of_notMem value new, shifted]
    exact ih (shifted ▸ distinct)

/-- Pairs with distinct keys are their own fields. -/
theorem ofList_of_distinct {pairs : List (String × Json)} (distinct : Distinct pairs) :
    ofList pairs = pairs :=
  insertAll_of_distinct (show Distinct ([] ++ pairs) from distinct)

/-! ## What the fields of pairs are

The keys in the order of their first pairs, each with the value of its last pair. Fields with
distinct keys are determined by these two facts. -/

/-- One pair more is one insertion more. -/
theorem ofList_concat (pairs : List (String × Json)) (key : String) (value : Json) :
    ofList (pairs ++ [(key, value)]) = (ofList pairs).insert key value := by
  unfold ofList
  rw [List.foldl_append, List.foldl_cons, List.foldl_nil]

/-- After an insertion the inserted value is under its key, and nothing else has changed. -/
theorem get?_insert (fields : Fields) (key : String) (value : Json) (k : String) :
    (fields.insert key value).get? k = if k == key then some value else fields.get? k := by
  induction fields with
  | nil =>
    simp only [insert, get?, List.lookup_cons, List.lookup_nil]
    cases k == key <;> rfl
  | cons field fields ih =>
    obtain ⟨name, v⟩ := field
    unfold get? at ih ⊢
    by_cases same : name = key
    · subst same
      simp only [insert, beq_self_eq_true, ↓reduceIte, List.lookup_cons]
      cases k == name <;> rfl
    · simp only [insert, beq_eq_false_iff_ne.mpr same, Bool.false_eq_true, ↓reduceIte,
        List.lookup_cons, ih]
      by_cases found : k = name
      · subst found
        simp only [beq_self_eq_true, beq_eq_false_iff_ne.mpr same, Bool.false_eq_true, ↓reduceIte]
      · simp only [beq_eq_false_iff_ne.mpr found]

/-- A key has the place of its first pair. -/
theorem keys_ofList (pairs : List (String × Json)) :
    (ofList pairs).map Prod.fst = (pairs.map Prod.fst).eraseDups := by
  induction pairs using List.reverseRecOn with
  | nil => rfl
  | append_singleton pairs pair ih =>
    obtain ⟨key, value⟩ := pair
    rw [ofList_concat, keys_insert, ih, List.map_append, List.eraseDups_append]
    split
    next known =>
      have : key ∈ pairs.map Prod.fst := List.mem_eraseDups.mp known
      simp [List.removeAll, this]
    next new =>
      have : key ∉ pairs.map Prod.fst := fun known => new (List.mem_eraseDups.mpr known)
      simp [List.removeAll, this, List.eraseDups_cons]

/-- A key has the value of its last pair. -/
theorem get?_ofList (pairs : List (String × Json)) (key : String) :
    (ofList pairs).get? key = pairs.reverse.lookup key := by
  induction pairs using List.reverseRecOn with
  | nil => rfl
  | append_singleton pairs pair ih =>
    obtain ⟨k, value⟩ := pair
    rw [ofList_concat, get?_insert, ih, List.reverse_append, List.reverse_singleton,
      List.singleton_append, List.lookup_cons]
    cases key == k <;> rfl

/-! ## What stands under a key -/

theorem contains_eq_isSome (fields : Fields) (key : String) :
    fields.contains key = (fields.get? key).isSome := by
  induction fields with
  | nil => rfl
  | cons field fields ih =>
    unfold contains get? at ih ⊢
    rw [List.any_cons, List.lookup_cons, ih, BEq.comm]
    cases key == field.1 <;> rfl

/-- After insertions under distinct keys each of these has its value, and nothing else has
changed. -/
theorem get?_insertAll {pairs : List (String × Json)} (once : (pairs.map Prod.fst).Nodup)
    (fields : Fields) (key : String) :
    (fields.insertAll pairs).get? key = (pairs.lookup key).or (fields.get? key) := by
  induction pairs generalizing fields with
  | nil => rfl
  | cons pair pairs ih =>
    obtain ⟨k, value⟩ := pair
    obtain ⟨new, once⟩ := List.nodup_cons.mp once
    rw [insertAll_cons, ih once, get?_insert, List.lookup_cons]
    cases found : key == k with
    | false => rfl
    | true =>
      have unset : pairs.lookup key = none := by
        rw [eq_of_beq found, List.lookup_eq_none_iff]
        intro entry mem
        exact bne_iff_ne.mpr fun same => new (List.mem_map.mpr ⟨entry, mem, same.symm⟩)
      rw [unset]
      rfl

/-- Insertions leave the keys that are there where they are. -/
theorem keys_prefix_insertAll (fields : Fields) (pairs : List (String × Json)) :
    fields.map Prod.fst <+: (fields.insertAll pairs).map Prod.fst := by
  induction pairs generalizing fields with
  | nil => exact List.prefix_rfl
  | cons pair pairs ih =>
    refine List.IsPrefix.trans ?_ (ih (fields.insert pair.1 pair.2))
    rw [keys_insert]
    split
    · exact List.prefix_rfl
    · exact List.prefix_append _ _

/-- Fields with distinct keys are told apart, but for their order, by what stands under a key. -/
theorem Distinct.perm {as bs : Fields} (ha : as.Distinct) (hb : bs.Distinct)
    (same : ∀ key, as.get? key = bs.get? key) : as.Perm bs := by
  refine (List.perm_ext_iff_of_nodup (List.Nodup.of_map _ ha) (List.Nodup.of_map _ hb)).mpr ?_
  rintro ⟨key, value⟩
  rw [← lookup_eq_some_of_nodup ha, ← lookup_eq_some_of_nodup hb]
  exact Eq.congr_left (same key)

end Pipework.Fields
