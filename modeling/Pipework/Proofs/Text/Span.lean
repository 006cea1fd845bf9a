/-!
# Spans

A scan takes characters as long as they are of one class. Where a text is a run of the class with
something behind it that does not go on with the class, the run is what is taken and the rest is
what is left.
-/

namespace Pipework.Text

variable {p : Char → Bool} {run rest : List Char}

/-- The rest does not go on with the class. -/
abbrev StopsAt (p : Char → Bool) (rest : List Char) : Prop :=
  ∀ c, rest.head? = some c → p c = false

theorem stopsAt_nil : StopsAt p [] := nofun

/-- What begins with a character outside the class stops at once. -/
theorem stopsAt_cons {c : Char} {cs : List Char} (other : p c = false) : StopsAt p (c :: cs) := by
  intro d h
  cases h
  exact other

/-- The run is taken. -/
theorem takeWhile_span (run_ok : ∀ c ∈ run, p c = true) (stop : StopsAt p rest) :
    (run ++ rest).takeWhile p = run := by
  rw [List.takeWhile_append_of_pos run_ok]
  cases rest with
  | nil => rw [List.takeWhile_nil, List.append_nil]
  | cons c cs => rw [List.takeWhile_cons, stop c rfl, if_neg Bool.false_ne_true, List.append_nil]

/-- The rest is left. -/
theorem dropWhile_span (run_ok : ∀ c ∈ run, p c = true) (stop : StopsAt p rest) :
    (run ++ rest).dropWhile p = rest := by
  rw [List.dropWhile_append_of_pos run_ok]
  cases rest with
  | nil => rfl
  | cons c cs => rw [List.dropWhile_cons, stop c rfl, if_neg Bool.false_ne_true]

/-- As many characters as the class takes are those that it takes. -/
theorem take_length_takeWhile (cs : List Char) :
    cs.take (cs.takeWhile p).length = cs.takeWhile p := by
  have taken : (cs.takeWhile p ++ cs.dropWhile p).take (cs.takeWhile p).length = cs.takeWhile p :=
    List.take_left
  rwa [List.takeWhile_append_dropWhile] at taken

/-- Behind as many characters as the class takes stands what it leaves. -/
theorem drop_length_takeWhile (cs : List Char) :
    cs.drop (cs.takeWhile p).length = cs.dropWhile p := by
  have left : (cs.takeWhile p ++ cs.dropWhile p).drop (cs.takeWhile p).length = cs.dropWhile p :=
    List.drop_left
  rwa [List.takeWhile_append_dropWhile] at left

/-- What is left of a text stops at the class it was left by. -/
theorem stopsAt_dropWhile (cs : List Char) : StopsAt p (cs.dropWhile p) := by
  intro c h
  have := List.head?_dropWhile_not p cs
  rw [h] at this
  simpa using this

end Pipework.Text
