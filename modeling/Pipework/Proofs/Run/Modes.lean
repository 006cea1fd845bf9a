import Pipework.Proofs.Registry
import Pipework.Proofs.Run.Simulation

/-!
# Waiting changes nothing

A run that may wait differs from one that may not in what becomes of a handler that has to be waited
for, and in nothing else. So where no handler has to be waited for, both modes give the same run:
the same result, the same journal of hooks told and handlers called, the same context and the same
state of the handlers. And marking handlers as ones to be waited for, if they do the same as before,
changes nothing in a run that may wait.

Nothing is said of a blocking run that comes to a handler it would have to wait for.
-/

namespace Pipework

variable {σ : Type}

namespace Registry

/-- No handler has to be waited for. -/
def Prompt (registry : Registry σ) : Prop :=
  ∀ type action atom, registry.lookup type action = some atom → atom.handler.isAsync = false

/-- Both registries have a handler for the same calls, and it does the same. One of them may have to
wait for it. -/
def Alike (registry registry' : Registry σ) : Prop :=
  ∀ type action, Option.Rel
    (fun atom atom' => atom'.handler.run = atom.handler.run ∧ atom'.info = atom.info)
    (registry.lookup type action) (registry'.lookup type action)

theorem Alike.refl (registry : Registry σ) : registry.Alike registry := by
  intro type action
  cases registry.lookup type action with
  | none => exact .none
  | some atom => exact .some ⟨rfl, rfl⟩

/-- The registry with just these handlers to be waited for. -/
def deferring (waits : AtomType → String → Bool) (registry : Registry σ) : Registry σ :=
  registry.replace fun type action atom =>
    { atom with handler := { atom.handler with isAsync := waits type action } }

theorem alike_deferring (waits : AtomType → String → Bool) (registry : Registry σ) :
    registry.Alike (registry.deferring waits) := by
  intro type action
  rw [deferring, lookup_replace]
  cases registry.lookup type action with
  | none => exact .none
  | some atom => exact .some ⟨rfl, rfl⟩

end Registry

namespace Task

variable (t : Task σ) (params : Params) (r : Run σ)

/-- A handler that does not have to be waited for is called in either mode. -/
theorem invoke_of_prompt (mode mode' : Mode) (prompt : t.atom.handler.isAsync = false) :
    t.invoke mode params r = t.invoke mode' params r := by
  simp only [invoke, prompt, Bool.false_and, Bool.false_eq_true, if_false]

/-- A run that may wait does not look whether it has to. -/
theorem invoke_waiting {atom : Registered σ} (same : atom.handler.run = t.atom.handler.run) :
    Task.invoke ⟨t.index, t.step, atom⟩ .waiting params r = t.invoke .waiting params r := by
  have never (async : Bool) : ¬ ((async && Mode.waiting == Mode.blocking) = true) := by
    cases async <;> decide
  simp only [invoke, if_neg (never _), same]

end Task

namespace Executor

/-- Where no handler has to be waited for, a blocking run matches a waiting run with handlers that do
the same. -/
theorem matches_waiting {ex : Executor σ} {registry' : Registry σ} (prompt : ex.registry.Prompt)
    (alike : ex.registry.Alike registry') :
    Matches Eq .blocking .waiting ex { ex with registry := registry' } where
  sameVars _ _ h := by rw [h]
  sameId _ _ h := by rw [h]
  edited _ _ _ _ h := by rw [h]
  reported _ _ _ _ h := by rw [h]
  notified _ _ _ h := by rw [h]
  found type action := by
    have both := alike type action
    show Option.Rel _ (ex.registry.lookup type action) (registry'.lookup type action)
    cases found : ex.registry.lookup type action <;>
      cases found' : registry'.lookup type action <;>
      rw [found, found'] at both <;> cases both
    · exact .none
    next atom atom' same =>
      refine .some ⟨congrArg AtomInfo.params same.2, ?_⟩
      rintro index step params r _ rfl
      have waits := Task.invoke_waiting ⟨index, step, atom⟩ params r same.1
      have called := Task.invoke_of_prompt ⟨index, step, atom⟩ params r .waiting .blocking
        (prompt _ _ _ found)
      rw [called] at waits
      exact ⟨congrArg Prod.fst waits, congrArg Prod.snd waits.symm⟩

/-- **Waiting changes nothing.** Where no handler has to be waited for, a waiting run of a pipeline or
of a script is the blocking run, in its result and in all that it leaves: context, journal and the
handlers' state. The same holds of a waiting run over other handlers that do the same, whichever of
them have to be waited for. -/
theorem waiting_changes_nothing (ex : Executor σ) (prompt : ex.registry.Prompt) (r : Run σ) :
    (∀ p, ex.execute .waiting p r = ex.execute .blocking p r) ∧
    (∀ text, ex.executeText .waiting text r = ex.executeText .blocking text r) ∧
    ∀ registry', ex.registry.Alike registry' →
      let ex' : Executor σ := { ex with registry := registry' }
      (∀ p, ex'.execute .waiting p r = ex.execute .blocking p r) ∧
      ∀ text, ex'.executeText .waiting text r = ex.executeText .blocking text r := by
  have alike : ∀ registry', ex.registry.Alike registry' →
      let ex' : Executor σ := { ex with registry := registry' }
      (∀ p, ex'.execute .waiting p r = ex.execute .blocking p r) ∧
      ∀ text, ex'.executeText .waiting text r = ex.executeText .blocking text r := by
    intro registry' alike
    have same := matches_waiting prompt alike
    refine ⟨fun p => ?_, fun text => ?_⟩
    · obtain ⟨result, run⟩ := same.execute p (rfl : r = r)
      exact Prod.ext result run.symm
    · obtain ⟨result, run⟩ := same.executeText rfl text (rfl : r = r)
      exact Prod.ext result run.symm
  obtain ⟨definitions, texts⟩ := alike ex.registry (.refl ex.registry)
  exact ⟨definitions, texts, alike⟩

/-- An executor with one handler, which fails when it is called first and gives the number of calls
before from then on. -/
def counting : Executor Nat where
  hooks := [.logging, .events]
  registry := [((.source, "count"),
    { info := {}
      handler :=
        { isAsync := false
          run := fun call =>
            { outcome := if call.state = 0 then .error ⟨"no count"⟩ else .ok (some (.ofNat call.state))
              memory := call.memory
              notes := [.log "counted" .info]
              state := call.state + 1 } } })]

/-- The same, where the count has to be waited for. -/
def countingAside : Executor Nat :=
  { counting with registry := counting.registry.deferring fun _ _ => true }

/-- A step that counts and is tried again, and one that counts on. -/
def countTwice : Pipeline where
  name := "count"
  steps := [{ atom := ⟨.source, "count", []⟩, onError := .retry }, { atom := ⟨.source, "count", []⟩ }]

/-- Counting is the same whether or not it has to be waited for, through a failure and a second
attempt. -/
theorem counting_alike :
    counting.registry.Prompt ∧ counting.registry.Alike countingAside.registry ∧
    counting.execute .waiting countTwice ⟨{}, 0, []⟩ =
      counting.execute .blocking countTwice ⟨{}, 0, []⟩ ∧
    countingAside.execute .waiting countTwice ⟨{}, 0, []⟩ =
      counting.execute .blocking countTwice ⟨{}, 0, []⟩ ∧
    (countingAside.execute .waiting countTwice ⟨{}, 0, []⟩).2.context.data = .ofNat 2 := by
  have prompt : counting.registry.Prompt := by
    intro type action atom found
    cases List.mem_singleton.mp (Registry.mem_of_lookup found)
    rfl
  have alike : counting.registry.Alike countingAside.registry :=
    Registry.alike_deferring (fun _ _ => true) counting.registry
  obtain ⟨modes, -, others⟩ := waiting_changes_nothing counting prompt ⟨{}, 0, []⟩
  exact ⟨prompt, alike, modes countTwice, (others _ alike).1 countTwice, rfl⟩

end Executor

end Pipework
