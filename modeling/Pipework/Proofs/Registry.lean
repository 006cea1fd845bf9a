import Pipework.Proofs.Bindings
import Pipework.Registry

/-!
# What a registry finds

What is found for a call was registered for it, so a property of all that is registered is one of all
that is found. And when every handler is replaced by one made of it, what is found is replaced alike.
-/

namespace Pipework.Registry

variable {σ τ : Type}

/-- What is found for a call stands in the registry under it. -/
theorem mem_of_lookup {registry : Registry σ} {type : AtomType} {action : String}
    {atom : Registered σ} (found : registry.lookup type action = some atom) :
    ((type, action), atom) ∈ registry := by
  obtain ⟨before, after, split, -⟩ := List.lookup_eq_some_iff.mp found
  rw [split]
  exact List.mem_append_right before List.mem_cons_self

/-- The registry with everything replaced, by what its call is and what it was. -/
def replace (make : AtomType → String → Registered σ → Registered τ) (registry : Registry σ) :
    Registry τ :=
  registry.map fun ((type, action), atom) => ((type, action), make type action atom)

/-- Replacing everything replaces what is found. -/
theorem lookup_replace (make : AtomType → String → Registered σ → Registered τ)
    (registry : Registry σ) (type : AtomType) (action : String) :
    (registry.replace make).lookup type action =
      (registry.lookup type action).map (make type action) := by
  induction registry with
  | nil => rfl
  | cons entry registry ih =>
    obtain ⟨⟨type', action'⟩, atom⟩ := entry
    unfold lookup replace at ih ⊢
    rw [List.map_cons, List.lookup_cons, List.lookup_cons]
    by_cases same : (type, action) = (type', action')
    · obtain ⟨rfl, rfl⟩ := Prod.mk.inj same
      simp only [beq_self_eq_true, Option.map_some]
    · simp only [beq_eq_false_iff_ne.mpr same]
      exact ih

/-! ## What registering adds -/

/-- What is registered in the end was there before or is one of the entries. -/
theorem mem_registerAll {entries : List ((AtomType × String) × Registered σ)}
    {registry : Registry σ} {entry : (AtomType × String) × Registered σ}
    (mem : entry ∈ (registry.registerAll entries).2) : entry ∈ registry ∨ entry ∈ entries := by
  induction entries generalizing registry with
  | nil => exact .inl mem
  | cons head entries ih =>
    obtain ⟨⟨type, action⟩, atom⟩ := head
    rcases ih mem with mem | mem
    · rcases mem_setSorted mem with mem | rfl
      · exact .inl mem
      · exact .inr List.mem_cons_self
    · exact .inr (List.mem_cons_of_mem _ mem)

end Pipework.Registry
