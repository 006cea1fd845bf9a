import Pipework.Proofs.Json.Printed

/-!
# Printed values that nest too deep

A value that nests deeper than a reader goes is not read: the reader takes everything in front of the
first place that is too deep, as it takes what nests less, and stops there for that reason and no
other. `Exceeds` says so of a reader and a text, as `Reads` says that a text is read.
-/

namespace Pipework.Json

open Text (StopsAt)

/-- A text that a reader does not get through because something in it nests too deep. It is told from
a blank and from the end of a list by its first character. -/
structure Exceeds {α : Type} (read : Reader α) (text : List Char) : Prop where
  begins : ∃ c cs, text = c :: cs ∧ isBlank c = false ∧ c ≠ ']'
  exceeds : ∀ blanks : List Char, (∀ c ∈ blanks, isBlank c = true) → ∀ rest : List Char,
    StopsAt goesOnNumber rest → ∃ left, read (blanks ++ (text ++ rest)) = .error ⟨.tooDeep, left⟩

/-- The first of several things that has a property stands behind others that have not. -/
theorem exists_first {α : Type} {p : α → Prop} [DecidablePred p] {as : List α}
    (some : ∃ a ∈ as, p a) : ∃ front a behind, as = front ++ a :: behind ∧
      (∀ b ∈ front, ¬ p b) ∧ p a := by
  obtain ⟨a, mem, here⟩ := some
  have found : (as.find? (p ·)).isSome = true :=
    List.find?_isSome.mpr ⟨a, mem, decide_eq_true here⟩
  obtain ⟨a, found⟩ := Option.isSome_iff_exists.mp found
  obtain ⟨here, front, behind, split, before⟩ := List.find?_eq_some_iff_append.mp found
  refine ⟨front, a, behind, split, fun b mem => ?_, of_decide_eq_true here⟩
  simpa using before b mem

/-- A list that nests too deep has an item that does. -/
theorem exists_deeper_item {items : List Json} {depth : Nat} (deep : depth < depthItems items) :
    ∃ v ∈ items, depth < v.depth := by
  induction items with
  | nil => cases deep
  | cons v vs ih =>
    have deep : depth < v.depth ∨ depth < depthItems vs := by rw [depthItems] at deep; omega
    rcases deep with here | there
    · exact ⟨v, List.mem_cons_self, here⟩
    · obtain ⟨w, mem, deeper⟩ := ih there
      exact ⟨w, List.mem_cons_of_mem _ mem, deeper⟩

/-- Fields that nest too deep have one among them that does. -/
theorem exists_deeper_field {fields : List (String × Json)} {depth : Nat}
    (deep : depth < depthFields fields) : ∃ field ∈ fields, depth < field.2.depth := by
  induction fields with
  | nil => cases deep
  | cons field fields ih =>
    obtain ⟨key, v⟩ := field
    have deep : depth < v.depth ∨ depth < depthFields fields := by rw [depthFields] at deep; omega
    rcases deep with here | there
    · exact ⟨(key, v), List.mem_cons_self, here⟩
    · obtain ⟨other, mem, deeper⟩ := ih there
      exact ⟨other, List.mem_cons_of_mem _ mem, deeper⟩

/-! ## Items -/

/-- The comma in front of an item or a field, unless it is the first. -/
def commaUnless (isFirst : Bool) : List Char := if isFirst then [] else [',']

section

variable {α β : Type} {read : Reader β} {json : α → Json} {level : Nat} {isFirst : Bool}
  {cs here behind : List Char} {fuel : Nat} {stop : Stop}

theorem nextItem_line {c : Char} (isFirst : Bool) (other : isBlank c = false) (bracket : c ≠ ']') :
    nextItem isFirst (commaUnless isFirst ++ (newLine level ++ c :: cs)) =
      .ok (some (c :: cs)) := by
  cases isFirst with
  | true => exact nextItem_first other bracket
  | false => exact nextItem_comma other bracket

/-- A list is not read when an item is not. -/
theorem readItems_stop (next : nextItem isFirst cs = .ok (some here))
    (failed : read here = .error stop) : readItems read (fuel + 1) isFirst cs = .error stop :=
  Outcome.bind_eq_error.mpr (.inr ⟨_, next, Outcome.bind_eq_error.mpr (.inl failed)⟩)

/-- A list is not read when what stands behind an item is not. -/
theorem readItems_stop_behind {b : β} (next : nextItem isFirst cs = .ok (some here))
    (read_here : read here = .ok (b, behind))
    (failed : readItems read fuel false behind = .error stop) :
    readItems read (fuel + 1) isFirst cs = .error stop := by
  refine Outcome.bind_eq_error.mpr (.inr ⟨_, next, ?_⟩)
  refine Outcome.bind_eq_error.mpr (.inr ⟨_, read_here, ?_⟩)
  exact Outcome.bind_eq_error.mpr (.inl failed)

/-- The items of a list are read up to the first that is too deep. -/
theorem readItems_exceeds (back : α → β) (outer : Nat) (rest : List Char) {front after : List α} {a : α}
    (each : ∀ b ∈ front, Reads read (prettyChars level (json b)) (back b))
    (exceeds : Exceeds read (prettyChars level (json a))) (isFirst : Bool) {fuel : Nat}
    (enough : front.length < fuel) :
    ∃ left, readItems read fuel isFirst (commaUnless isFirst ++
      (prettyItems level ((front ++ a :: after).map json) ++ (newLine outer ++ ']' :: rest))) =
        .error ⟨.tooDeep, left⟩ := by
  induction front generalizing isFirst fuel with
  | nil =>
    obtain ⟨fuel, rfl⟩ := Nat.exists_eq_add_one.mpr enough
    obtain ⟨c, cs, text, solid, bracket⟩ := exceeds.begins
    have stop : StopsAt goesOnNumber
        (moreItems level (after.map json) ++ (newLine outer ++ ']' :: rest)) :=
      stops_moreItems outer (after.map json) (']' :: rest)
    obtain ⟨left, failed⟩ := exceeds.exceeds [] (fun _ mem => nomatch mem) _ stop
    refine ⟨left, readItems_stop ?_ failed⟩
    rw [List.nil_append, List.nil_append, List.map_cons, prettyItems_cons, text]
    simp only [List.cons_append, List.append_assoc]
    exact nextItem_line isFirst solid bracket
  | cons b front ih =>
    obtain ⟨fuel, rfl⟩ := Nat.exists_eq_add_one.mpr (Nat.zero_lt_of_lt enough)
    have reads := each b List.mem_cons_self
    obtain ⟨c, cs, text, solid, bracket⟩ := reads.begins
    obtain ⟨left, failed⟩ := ih (fun b mem => each b (List.mem_cons_of_mem _ mem)) false
      (Nat.lt_of_succ_lt_succ enough)
    have behind : moreItems level ((front ++ a :: after).map json) =
        commaUnless false ++ prettyItems level ((front ++ a :: after).map json) := by
      cases front <;> rfl
    rw [← List.append_assoc (commaUnless false), ← behind] at failed
    refine ⟨left, readItems_stop_behind ?_ (reads.here (stops_moreItems outer _ _)) failed⟩
    rw [List.cons_append, List.map_cons, prettyItems_cons, text]
    simp only [List.cons_append, List.append_assoc]
    exact nextItem_line isFirst solid bracket

/-- A printed list with an item that is too deep is not read. -/
theorem readItems_listBody_exceeds (back : α → β) (rest : List Char) {front after : List α} {a : α}
    (each : ∀ b ∈ front, Reads read (prettyChars (level + 1) (json b)) (back b))
    (exceeds : Exceeds read (prettyChars (level + 1) (json a))) :
    ∃ left, readItems read ((listBody level ((front ++ a :: after).map json) ++ rest).length + 1)
      true (listBody level ((front ++ a :: after).map json) ++ rest) =
        .error ⟨.tooDeep, left⟩ := by
  have body : listBody level ((front ++ a :: after).map json) ++ rest =
      prettyItems (level + 1) ((front ++ a :: after).map json) ++
        (newLine level ++ ']' :: rest) := by
    have shape : listBody level ((front ++ a :: after).map json) =
        prettyItems (level + 1) ((front ++ a :: after).map json) ++ newLine level ++ [']'] := by
      cases front <;> rfl
    rw [shape]
    simp only [List.append_assoc, List.singleton_append]
  have enough : front.length < (prettyItems (level + 1) ((front ++ a :: after).map json) ++
      (newLine level ++ ']' :: rest)).length + 1 := by
    have := length_le_prettyItems (level + 1) ((front ++ a :: after).map json)
    simp only [List.length_map, List.length_append, List.length_cons] at this ⊢
    omega
  rw [body]
  exact readItems_exceeds back level rest each exceeds true enough

end

/-! ## Fields -/

section

variable {σ : Type} {member : σ → String → Reader σ} {level : Nat} {isFirst : Bool}
  {cs here behind : List Char} {key : String} {gathered next last : σ} {fuel : Nat} {stop : Stop}

theorem nextKey_line (isFirst : Bool) (key : String) :
    nextKey isFirst (commaUnless isFirst ++ (newLine level ++ (quoted key ++ cs))) =
      .ok (some (key, cs)) := by
  cases isFirst with
  | true => exact nextKey_first key
  | false => exact nextKey_comma key

/-- An object is not read when a field is not. -/
theorem readMembers_stop (key_read : nextKey isFirst cs = .ok (some (key, here)))
    (failed : member gathered key here = .error stop) :
    readMembers member (fuel + 1) isFirst gathered cs = .error stop :=
  Outcome.bind_eq_error.mpr (.inr ⟨_, key_read, Outcome.bind_eq_error.mpr (.inl failed)⟩)

/-- An object is not read when what stands behind a field is not. -/
theorem readMembers_stop_behind (key_read : nextKey isFirst cs = .ok (some (key, here)))
    (reads : member gathered key here = .ok (next, behind))
    (failed : readMembers member fuel false next behind = .error stop) :
    readMembers member (fuel + 1) isFirst gathered cs = .error stop := by
  refine Outcome.bind_eq_error.mpr (.inr ⟨_, key_read, ?_⟩)
  exact Outcome.bind_eq_error.mpr (.inr ⟨_, reads, failed⟩)

/-- Fields are gathered on top of those in front of them. -/
theorem Takes.append {front behind : List (String × Json)}
    (taken : Takes member level gathered front next) (more : Takes member level next behind last) :
    Takes member level gathered (front ++ behind) last := by
  induction taken with
  | done => exact more
  | field reads _ ih => exact .field reads (ih more)

/-- A field that is too deep is not read from its colon on. -/
abbrev FieldExceeds (member : σ → String → Reader σ) (level : Nat) (gathered : σ) (key : String)
    (v : Json) : Prop :=
  ∀ rest, StopsAt goesOnNumber rest →
    ∃ left, member gathered key (':' :: ' ' :: (prettyChars level v ++ rest)) =
      .error ⟨.tooDeep, left⟩

/-- Fields are gathered up to the first that is too deep. -/
theorem readMembers_exceeds (outer : Nat) (rest : List Char) {v : Json}
    {front after : List (String × Json)} (takes : Takes member level gathered front last)
    (exceeds : FieldExceeds member level last key v) (isFirst : Bool) {fuel : Nat}
    (enough : front.length < fuel) :
    ∃ left, readMembers member fuel isFirst gathered (commaUnless isFirst ++
      (prettyFields level (front ++ (key, v) :: after) ++ (newLine outer ++ '}' :: rest))) =
        .error ⟨.tooDeep, left⟩ := by
  induction takes generalizing isFirst fuel with
  | done gathered =>
    obtain ⟨fuel, rfl⟩ := Nat.exists_eq_add_one.mpr enough
    obtain ⟨left, failed⟩ := exceeds _ (stops_moreFields outer after ('}' :: rest))
    refine ⟨left, readMembers_stop ?_ failed⟩
    rw [List.nil_append, prettyFields_cons]
    simp only [List.cons_append, List.append_assoc]
    exact nextKey_line isFirst key
  | @field gathered next last k w fields reads more ih =>
    obtain ⟨fuel, rfl⟩ := Nat.exists_eq_add_one.mpr (Nat.zero_lt_of_lt enough)
    obtain ⟨left, failed⟩ := ih exceeds false (Nat.lt_of_succ_lt_succ enough)
    have behind : moreFields level (fields ++ (key, v) :: after) =
        commaUnless false ++ prettyFields level (fields ++ (key, v) :: after) := by
      cases fields <;> rfl
    rw [← List.append_assoc (commaUnless false), ← behind] at failed
    refine ⟨left, readMembers_stop_behind ?_ (reads _ (stops_moreFields outer _ _)) failed⟩
    rw [List.cons_append, prettyFields_cons]
    simp only [List.cons_append, List.append_assoc]
    exact nextKey_line isFirst k

/-- A printed object with a field that is too deep is not read. -/
theorem readMembers_objectBody_exceeds (rest : List Char) {v : Json}
    {front after : List (String × Json)} (takes : Takes member (level + 1) gathered front last)
    (exceeds : FieldExceeds member (level + 1) last key v) :
    ∃ left, readMembers member ((objectBody level (front ++ (key, v) :: after) ++ rest).length + 1)
      true gathered (objectBody level (front ++ (key, v) :: after) ++ rest) =
        .error ⟨.tooDeep, left⟩ := by
  have body : objectBody level (front ++ (key, v) :: after) ++ rest =
      prettyFields (level + 1) (front ++ (key, v) :: after) ++ (newLine level ++ '}' :: rest) := by
    have shape : objectBody level (front ++ (key, v) :: after) =
        prettyFields (level + 1) (front ++ (key, v) :: after) ++ newLine level ++ ['}'] := by
      cases front <;> rfl
    rw [shape]
    simp only [List.append_assoc, List.singleton_append]
  have enough : front.length < (prettyFields (level + 1) (front ++ (key, v) :: after) ++
      (newLine level ++ '}' :: rest)).length + 1 := by
    have := length_le_prettyFields (level + 1) (front ++ (key, v) :: after)
    simp only [List.length_append, List.length_cons] at this ⊢
    omega
  rw [body]
  exact readMembers_exceeds level rest takes exceeds true enough

end

/-- A reader that does not get through a text does not get through it behind a colon. -/
theorem Exceeds.behind_colon {α : Type} {read : Reader α} {text rest : List Char}
    (exceeds : Exceeds read text) (stop : StopsAt goesOnNumber rest) :
    ∃ left, (readColon (':' :: ' ' :: (text ++ rest)) >>= read) = .error ⟨.tooDeep, left⟩ := by
  have blank : ∀ c ∈ [' '], isBlank c = true := by
    intro c mem
    rw [List.mem_singleton.mp mem]
    rfl
  rw [readColon_colon]
  exact exceeds.exceeds [' '] blank rest stop

/-- A field of values is too deep when its value is. -/
theorem fieldExceeds_readField {read : Reader Json} {level : Nat} {v : Json}
    (exceeds : Exceeds read (prettyChars level v)) (gathered : Fields) (key : String) :
    FieldExceeds (readField read) level gathered key v := by
  intro rest stop
  obtain ⟨left, failed⟩ := exceeds.behind_colon stop
  refine ⟨left, ?_⟩
  rcases Outcome.bind_eq_error.mp failed with colon | ⟨cs, colon, failed⟩
  · exact Outcome.bind_eq_error.mpr (.inl colon)
  · exact Outcome.bind_eq_error.mpr (.inr ⟨cs, colon, Outcome.bind_eq_error.mpr (.inl failed)⟩)

/-! ## Values -/

/-- A list or an object where none may be opened. -/
theorem exceeds_bracket {c : Char} {cs : List Char} (open_bracket : c = '[' ∨ c = '{') :
    Exceeds (readValueWith none) (c :: cs) where
  begins := ⟨c, cs, rfl, by rcases open_bracket with rfl | rfl <;> decide⟩
  exceeds blanks all rest _ := by
    have solid : isBlank c = false := by rcases open_bracket with rfl | rfl <;> rfl
    rw [List.cons_append, readValueWith, skipBlanks_blanks all solid]
    rcases open_bracket with rfl | rfl <;> exact ⟨_, rfl⟩

/-- A list with an item that is too deep. -/
theorem exceeds_array {level depth : Nat} {items : List Json} (distinct : AllItems KeysApart items)
    (each : ∀ v ∈ items, depth < v.depth →
      Exceeds (readValue depth) (prettyChars (level + 1) v))
    (deep : depth < depthItems items) :
    Exceeds (readValue (depth + 1)) (prettyChars level (.array items)) := by
  obtain ⟨front, v, after, rfl, shallow, deeper⟩ := exists_first (exists_deeper_item deep)
  have mem : v ∈ front ++ v :: after := List.mem_append_right _ List.mem_cons_self
  have reads : ∀ w ∈ front, Reads (readValue depth) (prettyChars (level + 1) w) w.reread :=
    fun w known => reads_value w _ _
      (allItems_iff.mp distinct w (List.mem_append_left _ known)) (Nat.le_of_not_lt (shallow w known))
  rw [prettyChars_array]
  refine ⟨⟨'[', _, rfl, rfl, by decide⟩, fun blanks all rest _ => ?_⟩
  obtain ⟨left, failed⟩ :=
    @readItems_listBody_exceeds Json Json (readValue depth) id level reread rest front after v
      reads (each v mem deeper)
  rw [List.map_id] at failed
  rw [List.cons_append, readValue, readValueWith, skipBlanks_blanks (c := '[') all rfl]
  exact ⟨left, Outcome.bind_eq_error.mpr (.inl failed)⟩

/-- Fields with one that is too deep, behind a brace. -/
theorem readMembers_fields_exceeds {level depth : Nat} {fields : Fields}
    (distinct : fields.KeysDistinct)
    (each : ∀ field ∈ fields, depth < field.2.depth →
      Exceeds (readValue depth) (prettyChars (level + 1) field.2))
    (deep : depth < depthFields fields) (rest : List Char) :
    ∃ left, readMembers (readField (readValue depth))
      ((objectBody level fields ++ rest).length + 1) true [] (objectBody level fields ++ rest) =
        .error ⟨.tooDeep, left⟩ := by
  obtain ⟨front, ⟨key, v⟩, after, rfl, shallow, deeper⟩ := exists_first (exists_deeper_field deep)
  have mem : (key, v) ∈ front ++ (key, v) :: after :=
    List.mem_append_right _ List.mem_cons_self
  have reads : ∀ field ∈ front,
      Reads (readValue depth) (prettyChars (level + 1) field.2) field.2.reread :=
    fun field known => reads_value field.2 _ _
      (allFields_iff.mp distinct.2 field (List.mem_append_left _ known))
      (Nat.le_of_not_lt (shallow field known))
  exact readMembers_objectBody_exceeds rest (takes_fields reads [])
    (fieldExceeds_readField (each _ mem deeper) _ key)

mutual

/-- A printed value that nests deeper than may be read is not read. -/
theorem exceeds_value : (v : Json) → (level depth : Nat) → v.KeysDistinct → depth < v.depth →
    Exceeds (readValue depth) (prettyChars level v)
  | .null, _, _, _, deep => absurd deep (Nat.not_lt_zero _)
  | .bool _, _, _, _, deep => absurd deep (Nat.not_lt_zero _)
  | .number _, _, _, _, deep => absurd deep (Nat.not_lt_zero _)
  | .string _, _, _, _, deep => absurd deep (Nat.not_lt_zero _)
  | .array items, level, 0, _, _ => by
    rw [prettyChars_array]
    exact exceeds_bracket (.inl rfl)
  | .object fields, level, 0, _, _ => by
    rw [prettyChars_object]
    exact exceeds_bracket (.inr rfl)
  | .array items, level, depth + 1, distinct, deep =>
    exceeds_array distinct.2 (exceeds_items items (level + 1) depth distinct.2)
      (Nat.lt_of_succ_lt_succ deep)
  | .object fields, level, depth + 1, distinct, deep => by
    rw [prettyChars_object]
    refine ⟨⟨'{', _, rfl, rfl, by decide⟩, fun blanks all rest _ => ?_⟩
    obtain ⟨left, failed⟩ := readMembers_fields_exceeds distinct
      (exceeds_fields fields (level + 1) depth distinct.2) (Nat.lt_of_succ_lt_succ deep) rest
    rw [List.cons_append, readValue, readValueWith, skipBlanks_blanks (c := '{') all rfl]
    exact ⟨left, Outcome.bind_eq_error.mpr (.inl failed)⟩

/-- The same of the items of a list. -/
theorem exceeds_items : (items : List Json) → (level depth : Nat) → AllItems KeysApart items →
    ∀ v ∈ items, depth < v.depth → Exceeds (readValue depth) (prettyChars level v)
  | [], _, _, _ => nofun
  | v :: vs, level, depth, distinct => by
    have here := exceeds_value v level depth distinct.1
    have more := exceeds_items vs level depth distinct.2
    exact List.forall_mem_cons.mpr ⟨here, more⟩

/-- The same of the values of an object. -/
theorem exceeds_fields : (fields : List (String × Json)) → (level depth : Nat) →
    AllFields KeysApart fields →
    ∀ field ∈ fields, depth < field.2.depth → Exceeds (readValue depth) (prettyChars level field.2)
  | [], _, _, _ => nofun
  | (_, v) :: fields, level, depth, distinct => by
    have here := exceeds_value v level depth distinct.1
    have more := exceeds_fields fields level depth distinct.2
    exact List.forall_mem_cons.mpr ⟨here, more⟩

end

end Pipework.Json
