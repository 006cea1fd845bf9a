import Pipework.Proofs.Script.Scanning

/-!
# The order of places

A message names a place by its line and column. Every character moves the place on, to the next column
or to the next line, so of two tokens of a text the one behind stands at a later place, and no two stand
at the same.
-/

namespace Pipework.Script

namespace Position

/-- The one place is in front of the other: on an earlier line, or in an earlier column of its line. -/
def Before (p q : Position) : Prop := p.line < q.line ∨ p.line = q.line ∧ p.column < q.column

variable {p q r : Position}

theorem Before.trans (first : p.Before q) (second : q.Before r) : p.Before r := by
  unfold Before at *
  omega

theorem Before.ne_or (before : p.Before q) : p.line ≠ q.line ∨ p.column ≠ q.column := by
  unfold Before at before
  omega

/-- A character moves the place on. -/
theorem before_next (p : Position) (c : Char) : p.Before (p.next c) := by
  unfold next Before
  split
  · exact .inl (Nat.lt_succ_self _)
  · exact .inr ⟨rfl, Nat.lt_succ_self _⟩

/-- Characters move the place on. -/
theorem before_advance (p : Position) (c : Char) (cs : List Char) : p.Before (p.advance (c :: cs)) := by
  induction cs generalizing p c with
  | nil => exact before_next p c
  | cons d cs ih => exact (before_next p c).trans (ih (p.next c) d)

end Position

/-- The tokens of what is left of a text stand behind one another, none of them in front of the place
where the scan begins. -/
theorem scanFrom_ascending (cs : List Char) {position : Position} {before : Option Char}
    {ts : List Token} (scanned : scanFrom position before cs = .ok ts) :
    ts.Pairwise (fun t t' => t.position.Before t'.position) ∧
      ∀ t ∈ ts, t.position = position ∨ position.Before t.position := by
  match cs with
  | [] =>
    rw [scanFrom] at scanned
    cases scanned
    exact ⟨List.pairwise_singleton _ _, List.forall_mem_singleton.mpr (.inl rfl)⟩
  | c :: cs =>
    obtain ⟨piece, extra, ts', -, rest, taken⟩ := scanFrom_cons_eq_ok.mp scanned
    obtain ⟨ascending, later⟩ := scanFrom_ascending (cs.drop extra) rest
    have moved := position.before_advance c (cs.take extra)
    have behind : ∀ t ∈ ts', position.Before t.position := by
      intro t mem
      rcases later t mem with same | before
      · rwa [same]
      · exact moved.trans before
    rcases taken with ⟨-, rfl⟩ | ⟨l, -, rfl⟩
    · exact ⟨ascending, fun t mem => .inr (behind t mem)⟩
    · exact ⟨List.pairwise_cons.mpr ⟨behind, ascending⟩,
        List.forall_mem_cons.mpr ⟨.inl rfl, fun t mem => .inr (behind t mem)⟩⟩
termination_by cs.length
decreasing_by rw [List.length_drop, List.length_cons]; omega

variable {text : String} {ts : List Token}

/-- The tokens of a text stand at later and later places. -/
theorem tokenize_ascending (scanned : tokenize text = .ok ts) :
    ts.Pairwise fun t t' => t.position.Before t'.position :=
  (scanFrom_ascending _ scanned).1

/-- A token of a text is known by its line and column. -/
theorem index_eq_of_place (scanned : tokenize text = .ok ts) {i j : Nat} {t t' : Token}
    (here : ts[i]? = some t) (there : ts[j]? = some t') (line : t'.position.line = t.position.line)
    (column : t'.position.column = t.position.column) : j = i := by
  have apart {i j : Nat} {t t' : Token} (here : ts[i]? = some t) (there : ts[j]? = some t')
      (less : i < j) : t.position.Before t'.position := by
    obtain ⟨_, rfl⟩ := List.getElem?_eq_some_iff.mp here
    obtain ⟨_, rfl⟩ := List.getElem?_eq_some_iff.mp there
    exact List.pairwise_iff_getElem.mp (tokenize_ascending scanned) _ _ _ _ less
  rcases Nat.lt_trichotomy j i with less | same | less
  · rcases (apart there here less).ne_or with other | other
    · exact absurd line other
    · exact absurd column other
  · exact same
  · rcases (apart here there less).ne_or with other | other
    · exact absurd line.symm other
    · exact absurd column.symm other

end Pipework.Script
