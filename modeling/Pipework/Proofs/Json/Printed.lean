import Pipework.Proofs.Json.Fields
import Pipework.Proofs.Json.Reread

/-!
# Printed values

A value that is printed with one item or field on a line is read as that value with its doubles
reread, if it nests no deeper than the reader goes and no object in it has a key twice. What is said
of lists does not depend on how their items are read, and what is said of objects does not depend on
what is gathered from their fields, so that records are read by the same lemmas.
-/

namespace Pipework.Json

open Text (StopsAt)

/-! ## Items -/

/-- The items behind the first. -/
def moreItems (level : Nat) : List Json → List Char
  | [] => []
  | v :: vs => ',' :: prettyItems level (v :: vs)

/-- A list behind its bracket. -/
def listBody (level : Nat) : List Json → List Char
  | [] => [']']
  | items => prettyItems (level + 1) items ++ newLine level ++ [']']

theorem prettyChars_array (level : Nat) (items : List Json) :
    prettyChars level (.array items) = '[' :: listBody level items := by
  cases items <;> rfl

theorem prettyItems_cons (level : Nat) (v : Json) (vs : List Json) :
    prettyItems level (v :: vs) = newLine level ++ (prettyChars level v ++ moreItems level vs) := by
  cases vs with
  | nil => rw [prettyItems, moreItems, List.append_nil]
  | cons w ws => rw [prettyItems, moreItems, List.append_assoc]; exact List.cons_ne_nil w ws

section

variable {level : Nat} {c : Char} {cs rest : List Char}

/-- The first item stands behind the end of the line of its bracket. -/
theorem nextItem_first (other : isBlank c = false) (bracket : c ≠ ']') :
    nextItem true (newLine level ++ c :: cs) = .ok (some (c :: cs)) := by
  rw [nextItem, skipBlanks_blanks (fun _ => isBlank_of_mem_newLine) other]
  split
  next none => cases none
  next same =>
    cases same
    exact absurd rfl bracket
  next same =>
    cases same
    rfl

/-- Every other item stands behind a comma and the end of a line. -/
theorem nextItem_comma (other : isBlank c = false) (bracket : c ≠ ']') :
    nextItem false (',' :: (newLine level ++ c :: cs)) = .ok (some (c :: cs)) := by
  rw [nextItem, skipBlanks_cons (c := ',') rfl]
  split
  next none => cases none
  next same => cases same
  next same =>
    cases same
    simp only [Bool.false_eq_true, ↓reduceIte,
      skipBlanks_blanks (fun _ => isBlank_of_mem_newLine) other]
    split
    next none => cases none
    next same =>
      cases same
      exact absurd rfl bracket
    next => rfl

/-- A closing bracket means that there is no item left, first or not. -/
theorem nextItem_end {blanks : List Char} (all : ∀ c ∈ blanks, isBlank c = true) (isFirst : Bool) :
    nextItem isFirst (blanks ++ ']' :: rest) = .ok none := by
  simp only [nextItem, skipBlanks_blanks (c := ']') all rfl]

/-- A list ends behind its closing bracket. -/
theorem endList_end {blanks : List Char} (all : ∀ c ∈ blanks, isBlank c = true) :
    endList (blanks ++ ']' :: rest) = .ok rest := by
  simp only [endList, skipBlanks_blanks (c := ']') all rfl]

end

section

variable {α β : Type} {read : Reader β} {json : α → Json} {back : α → β} {level : Nat}

theorem stops_newLine (cs : List Char) : StopsAt goesOnNumber (newLine level ++ cs) :=
  Text.stopsAt_cons rfl

/-- A number among the items ends where its own digits do. -/
theorem stops_moreItems (outer : Nat) (vs : List Json) (cs : List Char) :
    StopsAt goesOnNumber (moreItems level vs ++ (newLine outer ++ cs)) := by
  cases vs with
  | nil => exact stops_newLine cs
  | cons v vs => exact Text.stopsAt_cons rfl

/-- A list ends at its bracket. -/
theorem readItems_end (blanks : List Char) (all : ∀ c ∈ blanks, isBlank c = true) (isFirst : Bool)
    (fuel : Nat) (rest : List Char) :
    readItems read (fuel + 1) isFirst (blanks ++ ']' :: rest) = .ok ([], rest) := by
  refine Outcome.bind_eq_ok.mpr ⟨_, nextItem_end all isFirst, ?_⟩
  exact Outcome.bind_eq_ok.mpr ⟨_, endList_end all, rfl⟩

/-- An item and those behind it. -/
theorem readItems_step {isFirst : Bool} {cs text behind rest : List Char} {b : β} {bs : List β}
    {fuel : Nat} (next : nextItem isFirst cs = .ok (some (text ++ behind)))
    (reads : Reads read text b) (stop : StopsAt goesOnNumber behind)
    (more : readItems read fuel false behind = .ok (bs, rest)) :
    readItems read (fuel + 1) isFirst cs = .ok (b :: bs, rest) := by
  refine Outcome.bind_eq_ok.mpr ⟨_, next, ?_⟩
  refine Outcome.bind_eq_ok.mpr ⟨_, reads.here stop, ?_⟩
  exact Outcome.bind_eq_ok.mpr ⟨_, more, rfl⟩

/-- Items behind the first are read up to the end of the list. -/
theorem readItems_more (outer : Nat) (rest : List Char) {as : List α}
    (each : ∀ a ∈ as, Reads read (prettyChars level (json a)) (back a)) {fuel : Nat}
    (enough : as.length < fuel) :
    readItems read fuel false (moreItems level (as.map json) ++ (newLine outer ++ ']' :: rest)) =
      .ok (as.map back, rest) := by
  induction as generalizing fuel with
  | nil =>
    obtain ⟨fuel, rfl⟩ := Nat.exists_eq_add_one.mpr enough
    exact readItems_end _ (fun _ => isBlank_of_mem_newLine) false fuel rest
  | cons a as ih =>
    obtain ⟨fuel, rfl⟩ := Nat.exists_eq_add_one.mpr (Nat.zero_lt_of_lt enough)
    have reads := each a List.mem_cons_self
    -- An item begins with neither a blank nor the bracket, so that it is not taken for the end.
    obtain ⟨c, cs, text, solid, bracket⟩ := reads.begins
    have more := ih (fun b mem => each b (List.mem_cons_of_mem _ mem))
      (Nat.lt_of_succ_lt_succ enough)
    refine readItems_step ?_ reads (stops_moreItems outer _ _) more
    rw [List.map_cons, moreItems, prettyItems_cons, text]
    simp only [List.cons_append, List.append_assoc]
    exact nextItem_comma solid bracket

/-- Printed items have at least one character each. -/
theorem length_le_prettyItems (level : Nat) (items : List Json) :
    items.length ≤ (prettyItems level items).length := by
  induction items with
  | nil => exact Nat.le_refl _
  | cons v vs ih =>
    have line : 0 < (newLine level).length := Nat.succ_pos _
    rw [prettyItems_cons, List.length_append, List.length_append, List.length_cons]
    cases vs with
    | nil =>
      rw [List.length_nil]
      omega
    | cons w ws =>
      rw [moreItems, List.length_cons (a := ',')]
      omega

/-- A printed list is read, if its items are, behind its bracket. -/
theorem readItems_listBody (json : α → Json) (rest : List Char) {as : List α}
    (each : ∀ a ∈ as, Reads read (prettyChars (level + 1) (json a)) (back a)) :
    readItems read ((listBody level (as.map json) ++ rest).length + 1) true
      (listBody level (as.map json) ++ rest) = .ok (as.map back, rest) := by
  cases as with
  | nil => exact readItems_end [] (fun _ mem => nomatch mem) true _ rest
  | cons a as =>
    rw [List.map_cons, listBody]
    -- The first item has a line break before it and no comma; the comma belongs to those behind it.
    have shape : prettyItems (level + 1) (json a :: as.map json) ++ newLine level ++ [']'] ++ rest =
        newLine (level + 1) ++ (prettyChars (level + 1) (json a) ++
          (moreItems (level + 1) (as.map json) ++ (newLine level ++ ']' :: rest))) := by
      rw [prettyItems_cons]
      simp only [List.append_assoc, List.singleton_append]
    have enough : as.length < (prettyItems (level + 1) (json a :: as.map json) ++ newLine level ++
        [']'] ++ rest).length := by
      have := length_le_prettyItems (level + 1) (json a :: as.map json)
      rw [List.length_cons, List.length_map] at this
      simp only [List.length_append]
      omega
    have reads := each a List.mem_cons_self
    obtain ⟨c, cs, text, solid, bracket⟩ := reads.begins
    refine readItems_step ?_ reads (stops_moreItems level _ _)
      (readItems_more level rest (fun b mem => each b (List.mem_cons_of_mem _ mem)) enough)
    · rw [shape, text]
      exact nextItem_first solid bracket
    · exact nofun

end

/-! ## Fields -/

/-- The fields behind the first. -/
def moreFields (level : Nat) : List (String × Json) → List Char
  | [] => []
  | field :: fields => ',' :: prettyFields level (field :: fields)

/-- An object behind its brace. -/
def objectBody (level : Nat) : List (String × Json) → List Char
  | [] => ['}']
  | fields => prettyFields (level + 1) fields ++ newLine level ++ ['}']

theorem prettyChars_object (level : Nat) (fields : List (String × Json)) :
    prettyChars level (.object fields) = '{' :: objectBody level fields := by
  cases fields <;> rfl

theorem prettyFields_cons (level : Nat) (key : String) (v : Json) (fields : List (String × Json)) :
    prettyFields level ((key, v) :: fields) = newLine level ++ (quoted key ++
      ':' :: ' ' :: (prettyChars level v ++ moreFields level fields)) := by
  cases fields with
  | nil =>
    rw [prettyFields, moreFields, List.append_nil, List.append_assoc]
  | cons field fields =>
    rw [prettyFields, moreFields]
    · simp only [List.append_assoc, List.cons_append]
    · exact nofun

section

variable {level outer : Nat} {cs rest : List Char}

/-- The first key stands behind the end of the line of its brace. -/
theorem nextKey_first (key : String) :
    nextKey true (newLine level ++ (quoted key ++ rest)) = .ok (some (key, rest)) := by
  rw [quoted_append, nextKey, skipBlanks_blanks (c := '"') (fun _ => isBlank_of_mem_newLine) rfl]
  exact Outcome.bind_eq_ok.mpr ⟨_, readQuoted_escaped key rest, rfl⟩

/-- Every other key stands behind a comma and the end of a line. -/
theorem nextKey_comma (key : String) :
    nextKey false (',' :: (newLine level ++ (quoted key ++ rest))) = .ok (some (key, rest)) := by
  have blanks : skipBlanks (newLine level ++ '"' :: (key.toList.flatMap escapeChar ++ '"' :: rest)) =
      '"' :: (key.toList.flatMap escapeChar ++ '"' :: rest) :=
    skipBlanks_blanks (fun _ => isBlank_of_mem_newLine) rfl _
  simp only [nextKey, quoted_append, skipBlanks_cons (c := ',') rfl, Char.reduceEq, imp_self,
    Bool.false_eq_true, ↓reduceIte, blanks]
  exact Outcome.bind_eq_ok.mpr ⟨_, readQuoted_escaped key rest, rfl⟩

/-- A closing brace means that there is no key left, first or not. -/
theorem nextKey_end {blanks : List Char} (all : ∀ c ∈ blanks, isBlank c = true) (isFirst : Bool) :
    nextKey isFirst (blanks ++ '}' :: rest) = .ok none := by
  simp only [nextKey, skipBlanks_blanks (c := '}') all rfl]

/-- An object ends behind its closing brace. -/
theorem endObject_end {blanks : List Char} (all : ∀ c ∈ blanks, isBlank c = true) :
    endObject (blanks ++ '}' :: rest) = .ok rest := by
  simp only [endObject, skipBlanks_blanks (c := '}') all rfl]

theorem readColon_colon (cs : List Char) : readColon (':' :: cs) = .ok cs := by
  simp only [readColon, skipBlanks_cons (c := ':') rfl]

end

/-- What is gathered from fields in order: each is read from its colon on, in front of what follows
it. -/
inductive Takes {σ : Type} (member : σ → String → Reader σ) (level : Nat) :
    σ → List (String × Json) → σ → Prop
  | done (gathered : σ) : Takes member level gathered [] gathered
  | field {gathered next last : σ} {key : String} {v : Json} {fields : List (String × Json)}
      (reads : ∀ rest, StopsAt goesOnNumber rest →
        member gathered key (':' :: ' ' :: (prettyChars level v ++ rest)) = .ok (next, rest))
      (more : Takes member level next fields last) :
      Takes member level gathered ((key, v) :: fields) last

section

variable {σ : Type} {member : σ → String → Reader σ} {level : Nat}

/-- A number among the fields ends where its own digits do. -/
theorem stops_moreFields (outer : Nat) (fields : List (String × Json)) (cs : List Char) :
    StopsAt goesOnNumber (moreFields level fields ++ (newLine outer ++ cs)) := by
  cases fields with
  | nil => exact stops_newLine cs
  | cons field fields => exact Text.stopsAt_cons rfl

/-- An object ends at its brace. -/
theorem readMembers_end (blanks : List Char) (all : ∀ c ∈ blanks, isBlank c = true) (isFirst : Bool)
    (fuel : Nat) (gathered : σ) (rest : List Char) :
    readMembers member (fuel + 1) isFirst gathered (blanks ++ '}' :: rest) =
      .ok (gathered, rest) := by
  refine Outcome.bind_eq_ok.mpr ⟨_, nextKey_end all isFirst, ?_⟩
  exact Outcome.bind_eq_ok.mpr ⟨_, endObject_end all, rfl⟩

/-- A field and those behind it. -/
theorem readMembers_step {isFirst : Bool} {cs text behind rest : List Char} {key : String}
    {gathered next last : σ} {fuel : Nat}
    (key_read : nextKey isFirst cs = .ok (some (key, text)))
    (reads : member gathered key text = .ok (next, behind))
    (more : readMembers member fuel false next behind = .ok (last, rest)) :
    readMembers member (fuel + 1) isFirst gathered cs = .ok (last, rest) := by
  refine Outcome.bind_eq_ok.mpr ⟨_, key_read, ?_⟩
  exact Outcome.bind_eq_ok.mpr ⟨_, reads, more⟩

/-- Fields behind the first are gathered up to the end of the object. -/
theorem readMembers_more (outer : Nat) (rest : List Char) {gathered last : σ}
    {fields : List (String × Json)} (takes : Takes member level gathered fields last) {fuel : Nat}
    (enough : fields.length < fuel) :
    readMembers member fuel false gathered
      (moreFields level fields ++ (newLine outer ++ '}' :: rest)) = .ok (last, rest) := by
  induction takes generalizing fuel with
  | done gathered =>
    obtain ⟨fuel, rfl⟩ := Nat.exists_eq_add_one.mpr enough
    exact readMembers_end _ (fun _ => isBlank_of_mem_newLine) false fuel gathered rest
  | @field gathered next last key v fields reads more ih =>
    obtain ⟨fuel, rfl⟩ := Nat.exists_eq_add_one.mpr (Nat.zero_lt_of_lt enough)
    refine readMembers_step ?_ (reads _ (stops_moreFields outer fields _))
      (ih (Nat.lt_of_succ_lt_succ enough))
    rw [moreFields, prettyFields_cons]
    simp only [List.cons_append, List.append_assoc]
    exact nextKey_comma key

/-- Printed fields have at least one character each. -/
theorem length_le_prettyFields (level : Nat) (fields : List (String × Json)) :
    fields.length ≤ (prettyFields level fields).length := by
  induction fields with
  | nil => exact Nat.le_refl _
  | cons field fields ih =>
    obtain ⟨key, v⟩ := field
    have line : 0 < (newLine level).length := Nat.succ_pos _
    rw [prettyFields_cons]
    cases fields with
    | nil =>
      simp only [List.length_append, List.length_cons, List.length_nil]
      omega
    | cons field fields =>
      simp only [moreFields, List.length_append, List.length_cons] at ih ⊢
      omega

/-- The fields of a printed object are gathered behind its brace. -/
theorem readMembers_objectBody (rest : List Char) {gathered last : σ}
    {fields : List (String × Json)} (takes : Takes member (level + 1) gathered fields last) :
    readMembers member ((objectBody level fields ++ rest).length + 1) true gathered
      (objectBody level fields ++ rest) = .ok (last, rest) := by
  cases takes with
  | done => exact readMembers_end [] (fun _ mem => nomatch mem) true _ gathered rest
  | @field _ next _ key v fields reads more =>
    rw [objectBody]
    have shape : prettyFields (level + 1) ((key, v) :: fields) ++ newLine level ++ ['}'] ++ rest =
        newLine (level + 1) ++ (quoted key ++ ':' :: ' ' :: (prettyChars (level + 1) v ++
          (moreFields (level + 1) fields ++ (newLine level ++ '}' :: rest)))) := by
      rw [prettyFields_cons]
      simp only [List.append_assoc, List.cons_append, List.nil_append]
    have enough : fields.length < (prettyFields (level + 1) ((key, v) :: fields) ++ newLine level ++
        ['}'] ++ rest).length := by
      have := length_le_prettyFields (level + 1) ((key, v) :: fields)
      rw [List.length_cons] at this
      simp only [List.length_append]
      omega
    refine readMembers_step ?_ (reads _ (stops_moreFields level fields _))
      (readMembers_more level rest more enough)
    · rw [shape]
      exact nextKey_first key
    · exact nofun

end

/-! ## Values -/

/-- The value of a field is read behind its colon. -/
theorem Reads.behind_colon {α : Type} {read : Reader α} {text rest : List Char} {a : α}
    (reads : Reads read text a) (stop : StopsAt goesOnNumber rest) :
    (readColon (':' :: ' ' :: (text ++ rest)) >>= read) = .ok (a, rest) := by
  have blank : ∀ c ∈ [' '], isBlank c = true := by
    intro c mem
    rw [List.mem_singleton.mp mem]
    rfl
  rw [readColon_colon]
  exact reads.reads [' '] blank rest stop

/-- Fields of values are gathered by inserting them. -/
theorem takes_fields {read : Reader Json} {level : Nat} {fields : List (String × Json)}
    (each : ∀ field ∈ fields, Reads read (prettyChars level field.2) field.2.reread)
    (gathered : Fields) :
    Takes (readField read) level gathered fields (gathered.insertAll (rereadFields fields)) := by
  induction fields generalizing gathered with
  | nil => exact .done gathered
  | cons field fields ih =>
    obtain ⟨key, v⟩ := field
    have more := ih fun field mem => each field (List.mem_cons_of_mem _ mem)
    refine .field (fun rest stop => ?_) (more _)
    have value := (each _ List.mem_cons_self).behind_colon stop
    obtain ⟨cs, colon, read⟩ := Outcome.bind_eq_ok.mp value
    refine Outcome.bind_eq_ok.mpr ⟨_, colon, ?_⟩
    exact Outcome.bind_eq_ok.mpr ⟨_, read, rfl⟩

section

variable {inside : Option (Reader Json)}

/-- A word that stands for a value is read as that value. -/
theorem reads_literal {c : Char} {word : List Char} {v : Json} (solid : isBlank c = false)
    (bracket : c ≠ ']') (means : ∀ cs cs', skipBlanks cs = c :: cs' →
      readValueWith inside cs = (readWord word cs').map fun rest => (v, rest)) :
    Reads (readValueWith inside) (c :: word) v where
  begins := ⟨c, word, rfl, solid, bracket⟩
  reads blanks all rest _ := by
    rw [List.cons_append, means _ _ (skipBlanks_blanks all solid _), readWord_append]
    rfl

theorem reads_null : Reads (readValueWith inside) ['n', 'u', 'l', 'l'] .null :=
  reads_literal rfl (by decide) fun cs cs' first => by
    simp only [readValueWith, first]
    rfl

/-- Either truth value is read back from its word. -/
theorem reads_bool (b : Bool) (level : Nat) :
    Reads (readValueWith inside) (prettyChars level (.bool b)) (.bool b) := by
  cases b with
  | true =>
    refine reads_literal rfl (by decide) fun cs cs' first => ?_
    simp only [readValueWith, first]
    rfl
  | false =>
    refine reads_literal rfl (by decide) fun cs cs' first => ?_
    simp only [readValueWith, first]
    rfl

theorem reads_string (s : String) : Reads (readValueWith inside) (quoted s) (.string s) where
  begins := ⟨'"', _, rfl, rfl, by decide⟩
  reads blanks all rest _ := by
    rw [quoted_append, readValueWith, skipBlanks_blanks (c := '"') all rfl]
    exact Outcome.bind_eq_ok.mpr ⟨_, readQuoted_escaped s rest, rfl⟩

/-- A list is read as its items are. -/
theorem reads_array {read : Reader Json} {level : Nat} {items : List Json}
    (each : ∀ v ∈ items, Reads read (prettyChars (level + 1) v) v.reread) :
    Reads (readValueWith (some read)) (prettyChars level (.array items))
      (.array (rereadItems items)) := by
  rw [prettyChars_array]
  refine ⟨⟨'[', _, rfl, rfl, by decide⟩, fun blanks all rest _ => ?_⟩
  have items_read := readItems_listBody id rest each
  rw [List.map_id, ← rereadItems_eq_map] at items_read
  rw [List.cons_append, readValueWith, skipBlanks_blanks (c := '[') all rfl]
  exact Outcome.bind_eq_ok.mpr ⟨_, items_read, rfl⟩

/-- What is read for the fields of an object is gathered as it is. -/
theorem insertAll_rereadFields {fields : List (String × Json)} (distinct : Fields.Distinct fields) :
    Fields.insertAll [] (rereadFields fields) = rereadFields fields := by
  refine Fields.ofList_of_distinct ?_
  rw [Fields.Distinct, keys_rereadFields]
  exact distinct

/-- An object is read as its fields are. -/
theorem reads_object {read : Reader Json} {level : Nat} {fields : List (String × Json)}
    (distinct : Fields.Distinct fields)
    (each : ∀ field ∈ fields, Reads read (prettyChars (level + 1) field.2) field.2.reread) :
    Reads (readValueWith (some read)) (prettyChars level (.object fields))
      (.object (rereadFields fields)) := by
  rw [prettyChars_object]
  refine ⟨⟨'{', _, rfl, rfl, by decide⟩, fun blanks all rest _ => ?_⟩
  have fields_read := readMembers_objectBody rest (takes_fields each [])
  rw [insertAll_rereadFields distinct] at fields_read
  rw [List.cons_append, readValueWith, skipBlanks_blanks (c := '{') all rfl]
  exact Outcome.bind_eq_ok.mpr ⟨_, fields_read, rfl⟩

end

mutual

/-- A printed value is read with its doubles reread, if its keys are distinct and it nests no deeper
than may be read. -/
theorem reads_value : (v : Json) → (level depth : Nat) → v.KeysDistinct → v.depth ≤ depth →
    Reads (readValue depth) (prettyChars level v) v.reread
  | .null, level, depth, _, _ => by
    obtain ⟨inside, read⟩ := exists_inside depth
    rw [read]
    exact reads_null
  | .bool b, level, depth, _, _ => by
    obtain ⟨inside, read⟩ := exists_inside depth
    rw [read]
    exact reads_bool b level
  | .number n, level, depth, _, _ => by
    obtain ⟨inside, read⟩ := exists_inside depth
    rw [read]
    exact reads_number n
  | .string s, level, depth, _, _ => by
    obtain ⟨inside, read⟩ := exists_inside depth
    rw [read]
    exact reads_string s
  | .array items, level, 0, _, shallow => absurd shallow (Nat.not_succ_le_zero _)
  | .array items, level, depth + 1, distinct, shallow =>
    reads_array (reads_items items (level + 1) depth distinct.2 (Nat.le_of_succ_le_succ shallow))
  | .object fields, level, 0, _, shallow => absurd shallow (Nat.not_succ_le_zero _)
  | .object fields, level, depth + 1, distinct, shallow =>
    reads_object distinct.1
      (reads_fields fields (level + 1) depth distinct.2 (Nat.le_of_succ_le_succ shallow))

/-- The same of the items of a list. -/
theorem reads_items : (items : List Json) → (level depth : Nat) → AllItems KeysApart items →
    depthItems items ≤ depth → ∀ v ∈ items, Reads (readValue depth) (prettyChars level v) v.reread
  | [], _, _, _, _ => nofun
  | v :: vs, level, depth, distinct, shallow => by
    have ⟨first, others⟩ := Nat.max_le.mp shallow
    have here := reads_value v level depth distinct.1 first
    have more := reads_items vs level depth distinct.2 others
    exact List.forall_mem_cons.mpr ⟨here, more⟩

/-- The same of the values of an object. -/
theorem reads_fields : (fields : List (String × Json)) → (level depth : Nat) →
    AllFields KeysApart fields → depthFields fields ≤ depth →
    ∀ field ∈ fields, Reads (readValue depth) (prettyChars level field.2) field.2.reread
  | [], _, _, _, _ => nofun
  | (_, v) :: fields, level, depth, distinct, shallow => by
    have ⟨first, others⟩ := Nat.max_le.mp shallow
    have here := reads_value v level depth distinct.1 first
    have more := reads_fields fields level depth distinct.2 others
    exact List.forall_mem_cons.mpr ⟨here, more⟩

end

end Pipework.Json
