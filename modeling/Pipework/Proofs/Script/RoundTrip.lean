import Pipework.Proofs.Script.Completeness
import Pipework.Proofs.Script.Sayable
import Pipework.Proofs.Script.Scanned
import Pipework.Proofs.Script.Spelled

/-!
# Reading what was written

A script says the name, the variables and the calls of a pipeline. Reading the script form of a
pipeline that a script can say gives back exactly that, whatever unknown types stand for; and what
is read from any text can be said, so it comes back as it is.

Both directions meet in the derivation trees. What is written scans to the spelling of a tree that
means the pipeline, and the readers find whatever a tree spells. What is read is the meaning of a
tree whose leaves are the tokens of a text, and such a meaning can be said.
-/

namespace Pipework.Script

open Script.Tree

/-- A text is read when it can be scanned and its tokens can be read. -/
theorem parse_eq_ok {unknown : UnknownTypes} {text : String} {p : Pipeline} :
    parse unknown text = .ok p ↔
      ∃ ts, tokenize text = .ok ts ∧ (readPipeline unknown ts).result = .ok p := by
  unfold parse read
  cases tokenize text with
  | error e => simp
  | ok ts =>
    simp only [Except.ok.injEq, exists_eq_left']
    split
    next found => rw [found]
    next found => rw [found]

/-- The keys of arguments that were counted and named are those of the parameters, which are
distinct. -/
theorem keysUnique_ofPipeline {p : Pipeline} (distinct : p.KeysDistinct) :
    (Source.ofPipeline p).KeysUnique := by
  intro call mem
  obtain ⟨step, known, rfl⟩ := List.mem_map.mp mem
  obtain ⟨apart, inside⟩ := distinct.2 step known
  rw [Call.KeysUnique, Call.params_ofAtom step.atom inside]
  exact apart

/-- What a script says of a pipeline is read from its script. -/
theorem parse_toScript {p : Pipeline} (unknown : UnknownTypes) (distinct : p.KeysDistinct)
    (expressible : p.Expressible) : parse unknown p.toScript = .ok p.scripted := by
  obtain ⟨ts, scanned, spelled⟩ := tokenize_toScript expressible
  have admitted : ∀ call ∈ (Source.ofPipeline p).calls, unknown.Admits call.module := by
    intro call mem
    obtain ⟨step, -, rfl⟩ := List.mem_map.mp mem
    refine .inr ?_
    rw [Call.ofAtom, AtomType.ofName?_name]
    rfl
  rw [← Source.meaning_ofPipeline unknown.fallback p distinct]
  exact parse_eq_ok.mpr
    ⟨ts, scanned, readPipeline_complete _ (keysUnique_ofPipeline distinct) admitted spelled⟩

/-- The tokens of a text are sayable. -/
theorem sayable_of_tokenize {text : String} {ts : List Token} (scanned : tokenize text = .ok ts) :
    Sayable (lexemes ts) where
  fits _ mem := fits_of_tokenize scanned mem
  bare _ _ neighbours := isBareWord_of_tokenize scanned neighbours

/-- What is read from a text can be said, and nothing of it is left out. -/
theorem expressible_of_parse {unknown : UnknownTypes} {text : String} {p : Pipeline}
    (parsed : parse unknown text = .ok p) : p.KeysDistinct ∧ p.Expressible ∧ p.scripted = p := by
  obtain ⟨ts, scanned, found⟩ := parse_eq_ok.mp parsed
  obtain ⟨script, beyond, spelled, unique, -, rfl⟩ := readPipeline_sound found
  have sayable := sayable_of_tokenize scanned
  rw [spelled] at sayable
  exact Source.expressible (sayable.part (List.prefix_append _ _).isInfix) unique unknown.fallback

/-- **Scripts round-trip.** A pipeline with distinct keys that a script can say is read from its
script as what the script says of it: the same name, variables and calls, everything else at its
default. Every pipeline that is read from a text is such a pipeline, and is read from its own script
unchanged. What becomes of unknown types does not matter. -/
theorem parse_toScript_of_expressible (unknown : UnknownTypes) :
    (∀ p : Pipeline, p.KeysDistinct → p.Expressible →
      parse unknown p.toScript = .ok p.scripted) ∧
    (∀ (text : String) (p : Pipeline), parse unknown text = .ok p →
      p.KeysDistinct ∧ p.Expressible ∧
        ∀ unknown' : UnknownTypes, parse unknown' p.toScript = .ok p) := by
  refine ⟨fun p => parse_toScript unknown, fun text p parsed => ?_⟩
  obtain ⟨distinct, expressible, complete⟩ := expressible_of_parse parsed
  refine ⟨distinct, expressible, fun unknown' => ?_⟩
  have again := parse_toScript unknown' distinct expressible
  rwa [complete] at again

/-- A name with a line break, comments, an argument counted out of turn, a key that is a boolean and
a reference: all of it comes back, from another script as well as from the first. -/
def quirky : Pipeline where
  name := "true\nstory"
  description := "first line\n\nlast \"line\""
  domain := some "tests"
  vars := [("n", .object [("true", .number (.ofNat 1)), ("a b", .array [.null, .bool true])])]
  steps := [{ atom := ⟨.data, "load", [("_arg1", .string "$n"), ("_arg0", .string "$5")]⟩ },
    { atom := ⟨.report, "show", []⟩, onError := .skip }]

/-- The script of `quirky` gives back what it says. -/
theorem quirky_comes_back :
    quirky.KeysDistinct ∧ quirky.Expressible ∧
      parse .reject quirky.toScript = .ok quirky.scripted ∧
      parse (.substitute .data) quirky.scripted.toScript = .ok quirky.scripted := by
  obtain ⟨once, again⟩ := parse_toScript_of_expressible .reject
  have distinct : quirky.KeysDistinct := by decide
  have expressible : quirky.Expressible := by decide
  have parsed := once quirky distinct expressible
  exact ⟨distinct, expressible, parsed, (again _ _ parsed).2.2 (.substitute .data)⟩

end Pipework.Script
