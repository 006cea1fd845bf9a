import Pipework.Proofs.Yaml.Numbers
import Pipework.Proofs.Yaml.Styles

/-!
# The tokens of printed documents

A printed value is cut into the tokens that its shape says. Blocks begin where something stands deeper
than what is around it, and they end in front of the next line that does not. Only a list under a key
has no block of its own, since its items stand where the key does.
-/

namespace Pipework.Yaml

/-! ## Tokens -/

mutual

/-- The tokens of a value. The items of a list are loose if they have no block of their own. -/
def valueTokens (loose : Bool) : Json → List Token
  | .null => [.scalar .plain "null"]
  | .bool b => [.scalar .plain (if b then "true" else "false")]
  | .number n => [.scalar .plain (numberText n)]
  | .string s => [.scalar (styleOf s) s]
  | .array [] => [.flowSequenceStart, .flowSequenceEnd]
  | .array (v :: vs) =>
    if loose then itemTokens (v :: vs)
    else .blockSequenceStart :: (itemTokens (v :: vs) ++ [.blockEnd])
  | .object [] => [.flowMappingStart, .flowMappingEnd]
  | .object (f :: fs) => .blockMappingStart :: (fieldTokens (f :: fs) ++ [.blockEnd])

/-- The tokens of items. -/
def itemTokens : List Json → List Token
  | [] => []
  | v :: vs => .item :: (valueTokens false v ++ itemTokens vs)

/-- The tokens of fields. -/
def fieldTokens : List (String × Json) → List Token
  | [] => []
  | (k, v) :: fields =>
    .key :: .scalar (styleOf k) k :: .value ::
      (valueTokens (isSimpleKey k) v ++ fieldTokens fields)

end

/-! ## Lines -/

/-- Does a value fit on the line where it begins, apart from texts? -/
def isLeaf : Json → Bool
  | .array (_ :: _) | .object (_ :: _) => false
  | _ => true

/-- What follows an item, or a field, at the same place. -/
def moreItems (indent : Nat) : List Json → List Char
  | [] => []
  | v :: vs => blanks indent ++ itemLines indent (v :: vs)

/-- What follows a field. -/
def moreFields (indent : Nat) : List (String × Json) → List Char
  | [] => []
  | f :: fs => blanks indent ++ fieldLines indent (f :: fs)

/-- A field. -/
def fieldText (indent : Nat) (key : String) (v : Json) : List Char :=
  if isSimpleKey key then textChars (indent + 2) key ++ ':' :: afterKey indent v
  else '?' :: ' ' :: endLine (textChars (indent + 2) key) ++ blanks indent ++ ':' :: afterMark indent v

theorem itemLines_cons (indent : Nat) (v : Json) (vs : List Json) :
    itemLines indent (v :: vs) = '-' :: (afterMark indent v ++ moreItems indent vs) := by
  cases vs with
  | nil => rw [itemLines, moreItems, List.append_nil]
  | cons w ws =>
    rw [itemLines, moreItems]
    · simp only [List.cons_append, List.append_assoc]
    · exact List.cons_ne_nil _ _

theorem fieldLines_cons (indent : Nat) (key : String) (v : Json) (fields : List (String × Json)) :
    fieldLines indent ((key, v) :: fields) = fieldText indent key v ++ moreFields indent fields := by
  cases fields with
  | nil =>
    rw [fieldLines, moreFields, List.append_nil]
    rfl
  | cons f fs =>
    rw [fieldLines, moreFields]
    · show fieldText indent key v ++ blanks indent ++ fieldLines indent (f :: fs) = _
      exact List.append_assoc _ _ _
    · exact List.cons_ne_nil _ _

/-- A leaf stands behind a key as it stands behind the dash of an item. -/
theorem afterKey_leaf {v : Json} (leaf : isLeaf v = true) (indent : Nat) :
    afterKey indent v = afterMark indent v := by
  match v with
  | .null | .bool _ | .number _ | .string _ | .array [] | .object [] => rfl

/-- The next line at a place of its own. -/
theorem nextLine_blanks (indent : Nat) {rest : List Char}
    (visible : ∀ c ∈ rest.head?, isVisible c = true) :
    NextLine indent (blanks indent ++ rest) indent rest :=
  ⟨rfl, Nat.le_refl _, visible⟩

/-- A line that ends a block ends every block further in. -/
theorem NextLine.mono {indent more n : Nat} {text rest : List Char}
    (next : NextLine indent text n rest) (le : indent ≤ more) : NextLine more text n rest :=
  ⟨next.text_eq, Nat.le_trans next.le le, next.visible⟩

/-- The lines of a list begin with their first dash. -/
theorem visible_itemLines (indent : Nat) (v : Json) (vs : List Json) (text : List Char) :
    ∀ c ∈ (itemLines indent (v :: vs) ++ text).head?, isVisible c = true := by
  rw [itemLines_cons]
  rintro c ⟨⟩
  rfl

/-- A field begins as its key does. -/
theorem visible_fieldText (indent : Nat) (key : String) (v : Json) (text : List Char) :
    ∀ c ∈ (fieldText indent key v ++ text).head?, isVisible c = true := by
  unfold fieldText
  cases simple : isSimpleKey key with
  | true =>
    obtain ⟨c, cs, first, visible, -⟩ :=
      (Scanner.takesScalar_key simple rfl : Scanner.TakesScalar (textChars (indent + 2) key) _ _ [':'])
    rw [if_pos rfl, first]
    rintro d ⟨⟩
    exact visible
  | false =>
    rintro c ⟨⟩
    rfl

namespace Scanner

section

variable {toks toks' out : List Token} {blocks blocks' : List Int} {allowed : Bool}
  {indent column n : Nat} {text rest cs : List Char}

/-! ## Values on one line -/

/-- A word without quotes that ends a line. -/
theorem gives_word (word : String) (plain : allowsPlain word.toList = true)
    (next : NextLine indent text n rest) (deeper : indent < column)
    (more : Gives (toks ++ [.scalar .plain word]) (indent :: blocks) true n rest out) :
    Gives toks (indent :: blocks) allowed column (word.toList ++ '\n' :: text) out := by
  have takes := takesLines_plain plain next
  rw [String.ofList_toList] at takes
  exact gives_lines takes (Int.ofNat_lt.mpr deeper) more

/-- A value that begins no block. -/
theorem gives_leaf {v : Json} (leaf : isLeaf v = true) (loose : Bool)
    (next : NextLine indent text n rest) (deeper : indent < column)
    (more : Gives (toks ++ valueTokens loose v) (indent :: blocks) true n rest out) :
    Gives toks (indent :: blocks) allowed column (afterMark indent v ++ text) out := by
  have deeper : indent < column + 1 := Nat.lt_succ_of_lt deeper
  match v with
  | .null => exact gives_blank (gives_word "null" rfl next deeper more)
  | .bool true => exact gives_blank (gives_word "true" rfl next deeper more)
  | .bool false => exact gives_blank (gives_word "false" rfl next deeper more)
  | .number m =>
    have line : afterMark indent (.number m) ++ text =
        ' ' :: ((numberText m).toList ++ '\n' :: text) := by
      rw [afterMark, List.cons_append, List.cons_append, List.append_assoc]
      rfl
    rw [line]
    exact gives_blank (gives_word (numberText m) (allowsPlain_numberText m) next deeper more)
  | .string s => exact gives_blank (gives_text s next deeper more)
  | .array [] =>
    exact gives_blank (gives_brackets .square (Int.ofNat_lt.mpr deeper) (gives_nextLine next more))
  | .object [] =>
    exact gives_blank (gives_brackets .curly (Int.ofNat_lt.mpr deeper) (gives_nextLine next more))

/-! ## Values on several lines -/

end

/-- A value is cut into its tokens behind a mark and behind a key, in front of a line that is not
deeper. -/
structure Cuts (v : Json) : Prop where
  mark {indent n : Nat} {text rest : List Char} {toks out : List Token} {blocks : List Int}
    (next : NextLine indent text n rest)
    (more : Gives (toks ++ valueTokens false v) (indent :: blocks) true n rest out) :
    Gives toks (indent :: blocks) true (indent + 1) (afterMark indent v ++ text) out
  key {indent column n : Nat} {text rest : List Char} {toks out : List Token} {blocks : List Int}
    (next : NextLine indent text n rest) (deeper : indent < column)
    (more : Gives (toks ++ valueTokens true v) (indent :: blocks) true n rest out) :
    Gives toks (indent :: blocks) false column (afterKey indent v ++ text) out

section

variable {toks toks' out : List Token} {blocks blocks' : List Int} {allowed : Bool}
  {indent column n : Nat} {text rest cs : List Char}

theorem cuts_leaf {v : Json} (leaf : isLeaf v = true) : Cuts v where
  mark next more := gives_leaf leaf false next (Nat.lt_succ_self _) more
  key next deeper more := by
    rw [afterKey_leaf leaf]
    exact gives_leaf leaf true next deeper more

/-- Behind the dash of an item there is a blank or the end of the line. -/
theorem space_afterMark (v : Json) (indent : Nat) (text : List Char) :
    atSpace (afterMark indent v ++ text) = true := by
  match v with
  | .null | .bool true | .bool false | .number _ | .string _ | .array [] | .array (_ :: _)
  | .object [] | .object (_ :: _) => rfl

/-- Behind the colon of a key there is a blank or the end of the line. -/
theorem space_afterKey (v : Json) (indent : Nat) (text : List Char) :
    atSpace (afterKey indent v ++ text) = true := by
  match v with
  | .null | .bool true | .bool false | .number _ | .string _ | .array [] | .array (_ :: _)
  | .object [] | .object (_ :: _) => rfl

/-- Items at their place go into the list there. -/
theorem gives_itemLines {items : List Json} (some : items ≠ []) (each : ∀ v ∈ items, Cuts v)
    (opens : Opens .blockSequenceStart indent toks blocks toks' (indent :: blocks'))
    (next : NextLine indent text n rest)
    (more : Gives (toks' ++ itemTokens items) (indent :: blocks') true n rest out) :
    Gives toks blocks true indent (itemLines indent items ++ text) out := by
  induction items generalizing toks toks' blocks with
  | nil => exact absurd rfl some
  | cons v vs ih =>
    have here := each v List.mem_cons_self
    rw [itemLines_cons, List.cons_append, List.append_assoc]
    refine gives_item opens (space_afterMark v indent _) ?_
    cases vs with
    | nil =>
      refine here.mark next ?_
      rwa [itemTokens, itemTokens, List.append_nil, List.append_cons] at more
    | cons w ws =>
      have nextItem : NextLine indent (moreItems indent (w :: ws) ++ text) indent
          (itemLines indent (w :: ws) ++ text) := by
        rw [moreItems, List.append_assoc]
        exact nextLine_blanks indent (visible_itemLines indent w ws text)
      refine here.mark nextItem ?_
      refine ih (List.cons_ne_nil _ _) (fun v mem => each v (List.mem_cons_of_mem _ mem)) .inside ?_
      rw [itemTokens, List.append_cons, ← List.append_assoc] at more
      exact more

/-- A field at its place goes into the object there. -/
theorem gives_fieldText {v : Json} (here : Cuts v) (key : String)
    (opens : Opens .blockMappingStart indent toks blocks toks' (indent :: blocks'))
    (next : NextLine indent text n rest)
    (more : Gives (toks' ++ .key :: .scalar (styleOf key) key :: .value ::
      valueTokens (isSimpleKey key) v) (indent :: blocks') true n rest out) :
    Gives toks blocks true indent (fieldText indent key v ++ text) out := by
  unfold fieldText
  cases simple : isSimpleKey key with
  | true =>
    rw [simple] at more
    obtain ⟨line, short⟩ := oneLine_key simple (indent + 2)
    have space := space_afterKey v indent text
    rw [if_pos rfl, List.append_assoc, List.cons_append]
    refine gives_key opens (takesScalar_key simple space) line short space fun behind deeper => ?_
    refine here.key next deeper ?_
    rwa [List.append_assoc]
  | false =>
    rw [simple] at more
    have colon : NextLine indent (blanks indent ++ ':' :: (afterMark indent v ++ text)) indent
        (':' :: (afterMark indent v ++ text)) := nextLine_blanks indent (by rintro c ⟨⟩; rfl)
    rw [if_neg Bool.false_ne_true]
    simp only [List.cons_append, List.append_assoc]
    refine gives_keyMark opens rfl (gives_blank ?_)
    refine gives_text key colon (by omega) ?_
    refine gives_valueMark (space_afterMark v indent text) (here.mark next ?_)
    simpa only [List.append_assoc, List.cons_append, List.nil_append] using more

/-- Fields at their place go into the object there. -/
theorem gives_fieldLines {fields : List (String × Json)} (some : fields ≠ [])
    (each : ∀ field ∈ fields, Cuts field.2)
    (opens : Opens .blockMappingStart indent toks blocks toks' (indent :: blocks'))
    (next : NextLine indent text n rest)
    (more : Gives (toks' ++ fieldTokens fields) (indent :: blocks') true n rest out) :
    Gives toks blocks true indent (fieldLines indent fields ++ text) out := by
  induction fields generalizing toks toks' blocks with
  | nil => exact absurd rfl some
  | cons field fields ih =>
    obtain ⟨key, v⟩ := field
    have here := each _ List.mem_cons_self
    rw [fieldLines_cons, List.append_assoc]
    cases fields with
    | nil =>
      refine gives_fieldText here key opens next ?_
      rwa [fieldTokens, fieldTokens, List.append_nil] at more
    | cons f fs =>
      have nextField : NextLine indent (moreFields indent (f :: fs) ++ text) indent
          (fieldLines indent (f :: fs) ++ text) := by
        rw [moreFields, List.append_assoc]
        refine nextLine_blanks indent ?_
        rw [fieldLines_cons, List.append_assoc]
        exact visible_fieldText indent f.1 f.2 _
      refine gives_fieldText here key opens nextField ?_
      refine ih (List.cons_ne_nil _ _) (fun f mem => each f (List.mem_cons_of_mem _ mem)) .inside ?_
      rw [List.append_assoc]
      rwa [fieldTokens] at more

/-- A block ends in front of a line that is not as deep. -/
theorem gives_blockEnd {x : Nat} (next : NextLine indent text n rest) (deeper : indent < x)
    (more : Gives (toks ++ [.blockEnd]) (indent :: blocks) allowed n rest out) :
    Gives toks (x :: indent :: blocks) allowed n rest out := by
  refine gives_close next.visible ?_ more
  have le := next.le
  cases rest with
  | nil => exact Int.lt_of_lt_of_le (by decide : (-1 : Int) < 0) (Int.natCast_nonneg x)
  | cons c cs => exact Int.ofNat_lt.mpr (Nat.lt_of_le_of_lt le deeper)

/-- A list is cut into the tokens of its items, each behind its dash, between the ends of a block.
-/
theorem cuts_array {v : Json} {vs : List Json} (each : ∀ w ∈ v :: vs, Cuts w) :
    Cuts (.array (v :: vs)) where
  mark {indent n text rest toks out blocks} next more := by
    refine gives_blank (gives_itemLines (List.cons_ne_nil _ _) each (.new ?_)
      (next.mono (Nat.le_add_right indent 2)) (gives_blockEnd next (by omega) ?_))
    · exact Int.ofNat_lt.mpr (by omega)
    · rw [List.append_assoc, List.append_assoc]
      exact more
  key {indent column n text rest toks out blocks} next deeper more := by
    have line : afterKey indent (.array (v :: vs)) ++ text =
        '\n' :: (blanks indent ++ (itemLines indent (v :: vs) ++ text)) := by
      simp only [afterKey, List.cons_append, List.append_assoc]
    rw [line]
    refine gives_newLine (gives_blanks ?_)
    rw [Nat.zero_add]
    exact gives_itemLines (List.cons_ne_nil _ _) each .inside next more

/-- An object is cut into the tokens of its fields, each key in front of its value, between the ends
of a block. -/
theorem cuts_object {field : String × Json} {fields : List (String × Json)}
    (each : ∀ f ∈ field :: fields, Cuts f.2) : Cuts (.object (field :: fields)) where
  mark {indent n text rest toks out blocks} next more := by
    refine gives_blank (gives_fieldLines (List.cons_ne_nil _ _) each (.new ?_)
      (next.mono (Nat.le_add_right indent 2)) (gives_blockEnd next (by omega) ?_))
    · exact Int.ofNat_lt.mpr (by omega)
    · rw [List.append_assoc, List.append_assoc]
      exact more
  key {indent column n text rest toks out blocks} next deeper more := by
    have line : afterKey indent (.object (field :: fields)) ++ text =
        '\n' :: (blanks (indent + 2) ++ (fieldLines (indent + 2) (field :: fields) ++ text)) := by
      simp only [afterKey, List.cons_append, List.append_assoc]
    rw [line]
    refine gives_newLine (gives_blanks ?_)
    rw [Nat.zero_add]
    refine gives_fieldLines (List.cons_ne_nil _ _) each (.new ?_)
      (next.mono (Nat.le_add_right indent 2)) (gives_blockEnd next (by omega) ?_)
    · exact Int.ofNat_lt.mpr (by omega)
    · rw [List.append_assoc, List.append_assoc]
      exact more

mutual

/-- Every value is cut into its tokens. -/
theorem cuts_value : (v : Json) → Cuts v
  | .null | .bool _ | .number _ | .string _ | .array [] | .object [] => cuts_leaf rfl
  | .array (v :: vs) => cuts_array (cuts_items (v :: vs))
  | .object (f :: fs) => cuts_object (cuts_fields (f :: fs))

/-- So is every item of a list. -/
theorem cuts_items : (items : List Json) → ∀ v ∈ items, Cuts v
  | [] => List.forall_mem_nil _
  | v :: vs => List.forall_mem_cons.mpr ⟨cuts_value v, cuts_items vs⟩

/-- So is every value of an object. -/
theorem cuts_fields : (fields : List (String × Json)) → ∀ field ∈ fields, Cuts field.2
  | [] => List.forall_mem_nil _
  | (_, v) :: fields => List.forall_mem_cons.mpr ⟨cuts_value v, cuts_fields fields⟩

end

end

end Scanner

/-! ## Characters -/

/-- All characters may be written as they are. -/
def Printable (cs : List Char) : Prop :=
  ∀ c ∈ cs, isPrintable c = true

section

variable {c : Char} {cs ds : List Char}

theorem Printable.append (front : Printable cs) (back : Printable ds) : Printable (cs ++ ds) :=
  fun c mem => (List.mem_append.mp mem).elim (front c) (back c)

theorem Printable.cons (here : isPrintable c = true) (back : Printable cs) : Printable (c :: cs) :=
  List.forall_mem_cons.mpr ⟨here, back⟩

/-- Blanks can be printed. -/
theorem printable_blanks (n : Nat) : Printable (blanks n) := by
  intro c mem
  rw [List.eq_of_mem_replicate mem]
  rfl

theorem Printable.endLine (printable : Printable cs) : Printable (endLine cs) := by
  unfold Yaml.endLine
  split
  · exact printable
  · exact printable.append (List.forall_mem_singleton.mpr rfl)

/-- Indenting the lines of a text that can be printed leaves it so. -/
theorem Printable.indented (printable : Printable cs) (n : Nat) (fresh : Bool) :
    Printable (indented n fresh cs) := by
  induction cs generalizing fresh with
  | nil => exact printable
  | cons c cs ih =>
    obtain ⟨here, more⟩ := List.forall_mem_cons.mp printable
    rw [Yaml.indented]
    split
    · exact .cons here (ih more true)
    · refine .append ?_ (.cons here (ih more false))
      cases fresh with
      | true => exact printable_blanks n
      | false => exact List.forall_mem_nil _

theorem printable_singleBody (indent : Nat) (printable : Printable cs) :
    Printable (singleBody indent cs) := by
  have doubled : Printable (cs.flatMap twice) := by
    intro c mem
    obtain ⟨d, here, mem⟩ := List.mem_flatMap.mp mem
    rw [eq_of_mem_twice mem]
    exact printable d here
  rw [singleBody_eq]
  refine (doubled.indented indent false).append ?_
  unfold lead
  split
  · exact printable_blanks indent
  · exact List.forall_mem_nil _

theorem printable_literalHeader (cs : List Char) : Printable (literalHeader cs) := by
  rw [literalHeader_eq]
  refine .append ?_ ?_
  · split
    · exact List.forall_mem_singleton.mpr rfl
    · exact List.forall_mem_nil _
  · cases chompingFor cs with
    | strip => exact List.forall_mem_singleton.mpr rfl
    | clip => exact List.forall_mem_nil _
    | keep => exact List.forall_mem_singleton.mpr rfl

/-- A text can be printed in whatever style it is written. -/
theorem printable_textChars (indent : Nat) (s : String) : Printable (textChars indent s) := by
  have style := styled s
  unfold textChars
  generalize styleOf s = chosen at style ⊢
  cases style with
  | plain means plain => exact (allowsPlain_iff.mp plain).2.1
  | single fits =>
    exact .cons rfl ((printable_singleBody indent fits.printable).append
      (List.forall_mem_singleton.mpr rfl))
  | double =>
    exact .cons rfl (.append (fun c mem => (printable_escaped c mem).1)
      (List.forall_mem_singleton.mpr rfl))
  | literal feed printable =>
    exact .cons rfl ((printable_literalHeader _).append
      (.cons rfl (Printable.indented printable indent true)))

end

/-- A value is printed with printable characters, behind a mark and behind a key. -/
structure Prints (v : Json) : Prop where
  mark (indent : Nat) : Printable (afterMark indent v)
  key (indent : Nat) : Printable (afterKey indent v)

/-- So can every leaf. -/
theorem prints_leaf {v : Json} (leaf : isLeaf v = true) : Prints v := by
  have mark : ∀ indent, Printable (afterMark indent v) := by
    intro indent
    match v with
    | .null | .bool true | .bool false | .array [] | .object [] =>
      exact List.all_eq_true.mp rfl
    | .number n =>
      refine .cons rfl (.append ?_ (List.forall_mem_singleton.mpr rfl))
      exact (allowsPlain_iff.mp (allowsPlain_numberText n)).2.1
    | .string s => exact .cons rfl (printable_textChars _ s).endLine
  refine ⟨mark, fun indent => ?_⟩
  rw [afterKey_leaf leaf]
  exact mark indent

/-- And the items of a list, if each of them can. -/
theorem printable_itemLines {items : List Json} (each : ∀ v ∈ items, Prints v) (indent : Nat) :
    Printable (itemLines indent items) := by
  induction items with
  | nil => exact List.forall_mem_nil _
  | cons v vs ih =>
    obtain ⟨here, more⟩ := List.forall_mem_cons.mp each
    rw [itemLines_cons]
    refine .cons rfl ((here.mark indent).append ?_)
    cases vs with
    | nil => exact List.forall_mem_nil _
    | cons w ws => exact (printable_blanks indent).append (ih more)

theorem printable_fieldText {v : Json} (prints : Prints v) (indent : Nat) (key : String) :
    Printable (fieldText indent key v) := by
  have text := printable_textChars (indent + 2) key
  unfold fieldText
  split
  · exact text.append (.cons rfl (prints.key indent))
  · refine .append (.append ?_ (printable_blanks indent)) (.cons rfl (prints.mark indent))
    exact .cons rfl (.cons rfl text.endLine)

/-- And the fields of an object, if each value can. -/
theorem printable_fieldLines {fields : List (String × Json)} (each : ∀ f ∈ fields, Prints f.2)
    (indent : Nat) : Printable (fieldLines indent fields) := by
  induction fields with
  | nil => exact List.forall_mem_nil _
  | cons f fs ih =>
    obtain ⟨here, more⟩ := List.forall_mem_cons.mp each
    rw [fieldLines_cons]
    refine (printable_fieldText here indent f.1).append ?_
    cases fs with
    | nil => exact List.forall_mem_nil _
    | cons f fs => exact (printable_blanks indent).append (ih more)

theorem prints_array {v : Json} {vs : List Json} (each : ∀ w ∈ v :: vs, Prints w) :
    Prints (.array (v :: vs)) where
  mark _ := .cons rfl (printable_itemLines each _)
  key indent := .cons rfl ((printable_blanks indent).append (printable_itemLines each _))

theorem prints_object {f : String × Json} {fs : List (String × Json)}
    (each : ∀ g ∈ f :: fs, Prints g.2) : Prints (.object (f :: fs)) where
  mark _ := .cons rfl (printable_fieldLines each _)
  key _ := .cons rfl ((printable_blanks _).append (printable_fieldLines each _))

mutual

/-- Every value is printed with printable characters. -/
theorem prints_value : (v : Json) → Prints v
  | .null | .bool _ | .number _ | .string _ | .array [] | .object [] => prints_leaf rfl
  | .array (v :: vs) => prints_array (prints_items (v :: vs))
  | .object (f :: fs) => prints_object (prints_fields (f :: fs))

/-- So is every item of a list. -/
theorem prints_items : (items : List Json) → ∀ v ∈ items, Prints v
  | [] => List.forall_mem_nil _
  | v :: vs => List.forall_mem_cons.mpr ⟨prints_value v, prints_items vs⟩

/-- So is every value of an object. -/
theorem prints_fields : (fields : List (String × Json)) → ∀ field ∈ fields, Prints field.2
  | [] => List.forall_mem_nil _
  | (_, v) :: fields => List.forall_mem_cons.mpr ⟨prints_value v, prints_fields fields⟩

end

/-! ## Documents -/

open Scanner in
/-- What gives some tokens from the start is cut into them. -/
theorem tokens_of_gives {cs : List Char} {out : List Token} (printable : Printable cs)
    (gives : Gives [] [-1] true 0 cs out) : tokens cs = .ok out := by
  have allowed : cs.all isAllowed = true :=
    List.all_eq_true.mpr fun c mem => isAllowed_of_isPrintable (printable c mem)
  obtain ⟨last, run, tokens⟩ := gives { cursor := ⟨{}, cs⟩ } ⟨rfl, rfl, rfl, rfl, rfl, rfl⟩
    (settled_of_none rfl) (cs.length + 1) (Nat.lt_succ_self _)
  rw [Yaml.tokens, if_pos allowed, normalize_of_printable printable]
  show (Scanner.run (cs.length + 1) { cursor := ⟨{}, cs⟩ } >>= _) = _
  rw [run]
  exact congrArg Except.ok tokens

open Scanner in
/-- **A printed object is cut into its tokens.** -/
theorem tokens_print (field : String × Json) (fields : List (String × Json)) :
    tokens (print (.object (field :: fields))).toList =
      .ok (valueTokens false (.object (field :: fields))) := by
  have next : NextLine 0 [] 0 [] := ⟨rfl, Nat.le_refl _, nofun⟩
  have each := cuts_fields (field :: fields)
  rw [print, String.toList_ofList]
  refine tokens_of_gives (printable_fieldLines (prints_fields (field :: fields)) 0) ?_
  have gives : Gives [] [-1] true 0 (fieldLines 0 (field :: fields) ++ []) _ :=
    gives_fieldLines (List.cons_ne_nil _ _) each (.new (by decide)) next
      (gives_close next.visible (by decide) gives_end)
  rw [List.append_nil] at gives
  exact gives

end Pipework.Yaml
