import Pipework.Proofs.Outcome
import Pipework.Proofs.Script.Lexing
import Pipework.Proofs.Text.Span
import Pipework.Reference

/-!
# References in texts and values

A text is divided from left to right into references and characters that belong to none. `Divides`
says when: a reference in braces is a word and its braces, one without braces has all the word
characters that follow, and a character stands alone only where no reference begins. So `$` in front
of a digit stands alone, and so does one in front of a brace that is not closed behind the word.
There is one division of every text (`divides_iff`).

The references of a value are those of its texts, in the order in which they stand in it. Whether the
value is resolved, and to what, hangs on them alone (`resolve_eq`): the first without a value is the
error, and if all have values, each text gives way to what its division makes of them. What is put
in is never divided again.
-/

namespace Pipework

open Script (isWord isWordStart isWordChar)
open Text (StopsAt)

/-! ## Dividing a text -/

/-- A reference as it may stand in front of the rest of a text. Its name is a word, and without
braces it is as long as it can be. -/
structure Reference.Stands (r : Reference) (rest : List Char) : Prop where
  word : isWord (String.ofList r.name) = true
  longest : r.braced = false → StopsAt isWordChar rest

/-- A part of a text: a reference, or a character that belongs to none. -/
inductive Segment where
  | char (c : Char)
  | reference (r : Reference)

/-- The text is divided into these segments, from left to right. -/
inductive Divides : List Char → List Segment → Prop
  | done : Divides [] []
  | reference {r : Reference} {rest : List Char} {segments : List Segment} (stands : r.Stands rest)
      (more : Divides rest segments) : Divides (r.chars ++ rest) (.reference r :: segments)
  | char {c : Char} {cs : List Char} {segments : List Segment}
      (alone : ∀ r rest, Reference.Stands r rest → c :: cs ≠ r.chars ++ rest)
      (more : Divides cs segments) : Divides (c :: cs) (.char c :: segments)

namespace Reference

variable {r : Reference} {c : Char} {cs rest : List Char}

/-- A reference as it was written is a dollar sign and as many characters as its length says. -/
theorem exists_chars (r : Reference) : ∃ tail, r.chars = '$' :: tail ∧ tail.length = r.length := by
  obtain ⟨name, _ | _⟩ := r
  · exact ⟨name, rfl, rfl⟩
  · refine ⟨'{' :: (name ++ ['}']), rfl, ?_⟩
    simp only [length, List.length_cons, List.length_append, List.length_nil, ↓reduceIte]

/-- What is read behind a dollar sign is a reference as it may stand there. -/
theorem stands_of_after? (found : after? cs = some r) :
    ∃ rest, '$' :: cs = r.chars ++ rest ∧ r.Stands rest := by
  unfold after? at found
  split at found
  next => cases found
  next c cs =>
    have split (ds : List Char) := List.takeWhile_append_dropWhile (p := isWordChar) (l := ds)
    have isWord_cons {d : Char} (ds : List Char) (start : isWordStart d = true) :
        isWord (String.ofList (d :: ds.takeWhile isWordChar)) = true := by
      simp only [isWord, String.toList_ofList, start, List.all_takeWhile, Bool.and_self]
    split at found
    next brace =>
      subst brace
      split at found
      next => cases found
      next d ds =>
        simp only [Option.ite_none_right_eq_some, Bool.and_eq_true, beq_iff_eq,
          Option.some.injEq] at found
        obtain ⟨⟨start, closed⟩, rfl⟩ := found
        obtain ⟨rest, left⟩ := List.head?_eq_some_iff.mp closed
        refine ⟨rest, ?_, isWord_cons ds start, fun plain => by cases plain⟩
        simp only [chars, ↓reduceIte, List.cons_append, List.nil_append, List.append_assoc, ← left,
          split]
    next =>
      simp only [Option.ite_none_right_eq_some, Option.some.injEq] at found
      obtain ⟨start, rfl⟩ := found
      refine ⟨cs.dropWhile isWordChar, ?_, isWord_cons cs start, fun _ => ?_⟩
      · simp only [chars, Bool.false_eq_true, ↓reduceIte, List.cons_append, split]
      · exact Text.stopsAt_dropWhile cs

/-- A reference is read where it stands. -/
theorem after?_of_stands (stands : r.Stands rest) (written : '$' :: cs = r.chars ++ rest) :
    after? cs = some r := by
  obtain ⟨name, braced⟩ := r
  obtain ⟨d, ds, split, start, inside⟩ := Script.exists_isWordStart stands.word
  obtain rfl : name = d :: ds := by rw [← split, String.toList_ofList]
  cases braced with
  | true =>
    have stops : StopsAt isWordChar ('}' :: rest) := Text.stopsAt_cons (by decide)
    simp only [chars, ↓reduceIte, List.cons_append, List.nil_append, List.append_assoc,
      List.cons.injEq, true_and] at written
    subst written
    simp only [after?, ↓reduceIte, Text.takeWhile_span inside stops,
      Text.dropWhile_span inside stops, start, List.head?_cons, beq_self_eq_true, Bool.and_self]
  | false =>
    have brace : d ≠ '{' := by
      rintro rfl
      exact absurd start (by decide)
    simp only [chars, Bool.false_eq_true, ↓reduceIte, List.cons_append, List.cons.injEq,
      true_and] at written
    subst written
    simp only [after?, brace, ↓reduceIte, start, Text.takeWhile_span inside (stands.longest rfl)]

end Reference

namespace Segment

/-- The segments of a text. -/
def ofChars : List Char → List Segment
  | [] => []
  | c :: cs =>
    match if c = '$' then Reference.after? cs else none with
    | none => .char c :: ofChars cs
    | some r => .reference r :: ofChars (cs.drop r.length)
termination_by cs => cs.length
decreasing_by all_goals (simp; try omega)

/-- The reference that a segment is, if it is one. -/
def reference? : Segment → Option Reference
  | .char _ => none
  | .reference r => some r

/-- A reference that stands in front is cut off as one segment. -/
theorem ofChars_of_stands {r : Reference} {rest : List Char} (stands : r.Stands rest) :
    ofChars (r.chars ++ rest) = .reference r :: ofChars rest := by
  obtain ⟨tail, chars, length⟩ := r.exists_chars
  have found : Reference.after? (tail ++ rest) = some r :=
    Reference.after?_of_stands stands (by rw [chars, List.cons_append])
  rw [chars, List.cons_append, ofChars]
  simp only [↓reduceIte, found, ← length, List.drop_left]

/-- A character with which no reference begins is a segment of its own. -/
theorem ofChars_of_alone {c : Char} {cs : List Char}
    (alone : ∀ r rest, Reference.Stands r rest → c :: cs ≠ r.chars ++ rest) :
    ofChars (c :: cs) = .char c :: ofChars cs := by
  rw [ofChars]
  split
  next => rfl
  next r found =>
    simp only [Option.ite_none_right_eq_some] at found
    obtain ⟨rfl, found⟩ := found
    obtain ⟨rest, written, stands⟩ := Reference.stands_of_after? found
    exact absurd written (alone r rest stands)

end Segment

/-- **Every text has one division.** -/
theorem divides_iff {cs : List Char} {segments : List Segment} :
    Divides cs segments ↔ segments = Segment.ofChars cs := by
  constructor
  · intro divides
    induction divides with
    | done => rw [Segment.ofChars]
    | reference stands _ ih => rw [Segment.ofChars_of_stands stands, ih]
    | char alone _ ih => rw [Segment.ofChars_of_alone alone, ih]
  · rintro rfl
    fun_induction Segment.ofChars cs with
    | case1 => exact .done
    | case2 c cs none ih =>
      refine .char (fun r rest stands written => ?_) ih
      obtain ⟨tail, chars, -⟩ := r.exists_chars
      obtain rfl : c = '$' := by
        rw [chars] at written
        exact (List.cons.inj written).1
      rw [dif_pos rfl, Reference.after?_of_stands stands written] at none
      cases none
    | case3 c cs r found ih =>
      simp only [Option.dite_none_right_eq_some] at found
      obtain ⟨rfl, found⟩ := found
      obtain ⟨rest, written, stands⟩ := Reference.stands_of_after? found
      obtain ⟨tail, chars, length⟩ := r.exists_chars
      obtain rfl : cs = tail ++ rest := by
        rw [chars] at written
        exact (List.cons.inj written).2
      rw [← length, List.drop_left] at ih ⊢
      rw [written]
      exact .reference stands ih

/-- The first brace is not closed behind its word, so the dollar sign in front of it stands alone. -/
example : Segment.ofChars "${a$b}${c}".toList =
    [.char '$', .char '{', .char 'a', .reference ⟨['b'], false⟩, .char '}',
      .reference ⟨['c'], true⟩] := by
  with_unfolding_all rfl

/-! ## The references and texts of a value -/

/-- The references of a text, in their order. -/
def references (s : String) : List Reference :=
  (Segment.ofChars s.toList).filterMap Segment.reference?

namespace Json

mutual

/-- The texts in a value, in the order in which they stand in it. Keys of objects are left out. -/
def texts : Json → List String
  | .string s => [s]
  | .array items => textsOfItems items
  | .object fields => textsOfFields fields
  | _ => []

def textsOfItems : List Json → List String
  | [] => []
  | v :: vs => v.texts ++ textsOfItems vs

def textsOfFields : List (String × Json) → List String
  | [] => []
  | (_, v) :: fields => v.texts ++ textsOfFields fields

end

mutual

/-- The value with something else in the place of each text. -/
def mapTexts (f : String → Json) : Json → Json
  | .string s => f s
  | .array items => .array (mapItems f items)
  | .object fields => .object (mapFields f fields)
  | v => v

def mapItems (f : String → Json) : List Json → List Json
  | [] => []
  | v :: vs => v.mapTexts f :: mapItems f vs

def mapFields (f : String → Json) : List (String × Json) → List (String × Json)
  | [] => []
  | (k, v) :: fields => (k, v.mapTexts f) :: mapFields f fields

end

end Json

/-! ## What references give way to -/

namespace Lookup

variable (lookup : Lookup)

/-- Does the reference have a value? -/
def binds (r : Reference) : Bool :=
  (lookup (String.ofList r.name)).isSome

/-- The value of a reference that has one. -/
def value (r : Reference) : Json :=
  (lookup (String.ofList r.name)).getD .null

/-- What stands in a text in the place of a segment. -/
def inserted : Segment → List Char
  | .char c => [c]
  | .reference r => (lookup.value r).display.toList

/-- What a text gives way to: the value of the reference that it is, or a text in which each
reference has given way to its value as text. -/
def replacement (s : String) : Json :=
  match Segment.ofChars s.toList with
  | [.reference r] => lookup.value r
  | segments => .string (String.ofList (segments.flatMap lookup.inserted))

/-- What there is if all these references have values. The first that has none is the error. -/
def ifBound {α : Type} (rs : List Reference) (a : α) : Except PipelineError α :=
  match rs.find? fun r => !lookup.binds r with
  | some r => .error (.undefinedVariable (String.ofList r.chars))
  | none => .ok a

variable {lookup} {α β γ : Type}

/-- Following a reference gives its value if it is bound. -/
theorem follow_eq (r : Reference) : lookup.follow r = lookup.ifBound [r] (lookup.value r) := by
  unfold follow ifBound binds value
  rw [List.find?_singleton]
  cases lookup (String.ofList r.name) <;> rfl

/-- What is given where references are bound may be changed. -/
theorem ifBound_map (rs : List Reference) (a : α) (f : α → β) :
    (lookup.ifBound rs a).map f = lookup.ifBound rs (f a) := by
  unfold ifBound
  cases rs.find? _ <;> rfl

/-- Of two things made one after the other, the references of the first come first. -/
theorem ifBound_bind (rs rs' : List Reference) (a : α) (b : β) (f : α → β → γ) :
    (lookup.ifBound rs a >>= fun a => lookup.ifBound rs' b >>= fun b => .ok (f a b)) =
      lookup.ifBound (rs ++ rs') (f a b) := by
  unfold ifBound
  rw [List.find?_append]
  cases rs.find? _ with
  | some r => rfl
  | none => cases rs'.find? _ <;> rfl

/-! ## Texts -/

/-- Interpolation goes through the segments of a text, and needs its references to be bound. -/
theorem interpolate_eq (cs : List Char) :
    lookup.interpolate cs = lookup.ifBound ((Segment.ofChars cs).filterMap Segment.reference?)
      ((Segment.ofChars cs).flatMap lookup.inserted) := by
  fun_induction Segment.ofChars cs with
  | case1 =>
    rw [interpolate]
    rfl
  | case2 c cs none ih =>
    rw [dite_eq_ite] at none
    rw [interpolate]
    simp only [none]
    rw [ih, ifBound_map]
    rfl
  | case3 c cs r found ih =>
    rw [dite_eq_ite] at found
    rw [interpolate]
    simp only [found]
    rw [ih, follow_eq]
    exact ifBound_bind [r] _ _ _ fun (v : Json) rest => v.display.toList ++ rest

/-- A text is a reference as a whole when it is divided into nothing else. -/
theorem whole?_eq_some {cs : List Char} {r : Reference} :
    whole? cs = some r ↔ Segment.ofChars cs = [.reference r] := by
  constructor
  · intro whole
    unfold whole? at whole
    split at whole
    next cs =>
      obtain ⟨found, length⟩ := Option.filter_eq_some_iff.mp whole
      rw [Segment.ofChars]
      simp only [↓reduceIte, found, beq_iff_eq.mp length, List.drop_length, Segment.ofChars]
    next => cases whole
  · intro divided
    cases divides_iff.mpr divided.symm with
    | reference stands more =>
      cases more
      obtain ⟨tail, chars, length⟩ := r.exists_chars
      have found : Reference.after? tail = some r :=
        Reference.after?_of_stands stands (by rw [chars, List.append_nil])
      rw [List.append_nil, chars]
      simp only [whole?, found, Option.filter_some, length, beq_self_eq_true, ↓reduceIte]

/-- A text gives its replacement if its references are bound. -/
theorem resolveText_eq (s : String) :
    lookup.resolveText s = lookup.ifBound (references s) (lookup.replacement s) := by
  unfold resolveText references
  split
  next r whole =>
    rw [whole?_eq_some] at whole
    simp only [replacement, whole, follow_eq]
    rfl
  next none =>
    rw [interpolate_eq, ifBound_map]
    unfold replacement
    split
    next r whole =>
      rw [whole?_eq_some.mpr whole] at none
      cases none
    next => rfl

/-! ## Values -/

mutual

/-- A value gives its replacement if the references in all of its texts are bound. -/
theorem resolve_eq (v : Json) :
    lookup.resolve v = lookup.ifBound (v.texts.flatMap references) (v.mapTexts lookup.replacement) := by
  match v with
  | .null | .bool _ | .number _ => rfl
  | .string s =>
    rw [resolve, resolveText_eq, Json.texts, Json.mapTexts, List.flatMap_singleton]
  | .array items =>
    rw [resolve, resolveItems_eq items, Json.texts, Json.mapTexts]
    exact ifBound_map _ _ Json.array
  | .object fields =>
    rw [resolve, resolveFields_eq fields, Json.texts, Json.mapTexts]
    exact ifBound_map _ _ Json.object

/-- The items of a list are resolved in their order. -/
theorem resolveItems_eq (items : List Json) :
    lookup.resolveItems items = lookup.ifBound ((Json.textsOfItems items).flatMap references)
      (Json.mapItems lookup.replacement items) := by
  match items with
  | [] => rfl
  | v :: vs =>
    rw [resolveItems, resolve_eq v, resolveItems_eq vs, Json.textsOfItems, Json.mapItems,
      List.flatMap_append]
    exact ifBound_bind _ _ _ _ List.cons

/-- The values of fields are resolved in their order, and the keys stay. -/
theorem resolveFields_eq (fields : List (String × Json)) :
    lookup.resolveFields fields = lookup.ifBound ((Json.textsOfFields fields).flatMap references)
      (Json.mapFields lookup.replacement fields) := by
  match fields with
  | [] => rfl
  | (k, v) :: fields =>
    rw [resolveFields, resolve_eq v, resolveFields_eq fields, Json.textsOfFields, Json.mapFields,
      List.flatMap_append]
    exact ifBound_bind _ _ _ _ fun v fields => (k, v) :: fields

end

end Lookup

end Pipework
