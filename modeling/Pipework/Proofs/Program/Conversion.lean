import Pipework.Proofs.Document.Distinct
import Pipework.Proofs.Document.Ends
import Pipework.Proofs.Program.Recording

/-!
# Converting to YAML and back

A command that converts a file prints one text. For a pipeline that was loaded, whatever its file was
written in, the YAML document is loaded as that pipeline again; but what is printed is the document
without the blanks at its end.
-/

namespace Pipework

/-- Wherever a file named as YAML holds the text, it is loaded as the pipeline. -/
def LoadsAs (text : String) (p : Pipeline) : Prop :=
  ∀ (host : Host) (path : String) (unknown : Script.UnknownTypes), Form.ofPath path = .yaml →
    host.file path = .ok text → host.pipeline? unknown path = some p

/-- A YAML file is loaded as what its text is read as. -/
theorem loadsAs_of_ofYamlText {text : String} {p : Pipeline}
    (read : Pipeline.ofYamlText text = .ok p) : LoadsAs text p := by
  intro host path unknown named holds
  rw [Host.pipeline?, holds, named]
  exact congrArg Except.toOption read

/-- A pipeline that was loaded has no key twice. -/
theorem Host.keysDistinct_of_loaded {host : Host} {unknown : Script.UnknownTypes} {path : String}
    {p : Pipeline} (loads : host.pipeline? unknown path = some p) : p.KeysDistinct := by
  obtain ⟨text, -, loads⟩ := Option.bind_eq_some_iff.mp loads
  exact Pipeline.keysDistinct_of_read (Outcome.toOption_eq_some.mp loads)

namespace Action

variable {host : Host}

theorem outcome_orFail {ε α : Type} (failure : ε → Failure) {x : Except ε α} {a : α}
    (given : x.toOption = some a) (s : Session) : (orFail failure x).outcome host s = (.ok a, s) := by
  rw [Outcome.toOption_eq_some.mp given]
  rfl

theorem outcome_readFile {path text : String} (holds : (host.file path).toOption = some text)
    (what : String) (s : Session) : (readFile what path).outcome host s = (.ok text, s) :=
  outcome_orFail _ holds s

/-- Settings are loaded without a trace. -/
theorem outcome_loadConfig {path : Option String} {config : Config}
    (settings : host.config? path = some config) (s : Session) :
    (loadConfig path).outcome host s = (.ok config, s) := by
  cases path with
  | none =>
    cases settings
    rfl
  | some path =>
    obtain ⟨text, holds, read⟩ := Option.bind_eq_some_iff.mp settings
    rw [loadConfig, outcome_bind, outcome_readFile holds]
    exact outcome_orFail _ read s

/-- A pipeline that loads leaves no more than reports. -/
theorem outcome_loadPipeline {unknown : Script.UnknownTypes} {path : String} {p : Pipeline}
    (loads : host.pipeline? unknown path = some p) (s : Session) :
    ∃ reports, (loadPipeline unknown path).outcome host s = (.ok p, { s with reports }) := by
  obtain ⟨text, holds, read⟩ := Option.bind_eq_some_iff.mp loads
  refine ⟨s.reports ++ (Pipeline.read (.ofPath path) unknown text).reports, ?_⟩
  rw [loadPipeline, outcome_bind, outcome_readFile holds]
  exact outcome_orFail _ read _

end Action

/-- A command to convert a file prints its pipeline in the other form, and nothing else. -/
theorem Invocation.output_convert (v : Invocation) (host : Host) (histories : List (String × Table))
    {file : String} {form : Form} {config : Config} {p : Pipeline}
    (command : v.command = .convert file form) (settings : host.config? v.config = some config)
    (loads : host.pipeline? config.unknownTypes file = some p) :
    (v.perform host histories).output = p.fileText form ++ "\n" ∧
      (v.perform host histories).exitStatus = 0 := by
  obtain ⟨reports, loaded⟩ := Action.outcome_loadPipeline loads { histories }
  have ran : v.action.outcome host { histories } =
      (.ok (), { histories, reports, printed := [p.fileText form] }) := by
    rw [action, command, Action.outcome_bind, Action.outcome_loadConfig settings]
    show (Action.convertFile file form config).outcome host _ = _
    rw [Action.convertFile, Action.outcome_bind, loaded]
    rfl
  have done : v.perform host histories =
      match v.action.outcome host { histories } with
      | (.ok (), session) => { session, stop := none }
      | (.error stop, session) => { session, stop := some stop } := rfl
  rw [done, ran]
  exact ⟨by simp [Performance.output, String.join], rfl⟩

/-- **Converting to YAML and back.** The command prints the YAML document of the pipeline that was
loaded, unless that ends in blanks of the last cache key, which are cut. The document is loaded as that
pipeline, and so what is printed is, unless something of it has been cut. -/
theorem converted_to_yaml_comes_back (v : Invocation) (host : Host)
    (histories : List (String × Table)) {file : String} {config : Config} {p : Pipeline}
    (command : v.command = .convert file .yaml) (settings : host.config? v.config = some config)
    (loads : host.pipeline? config.unknownTypes file = some p)
    (shallow : p.toJson.depth ≤ Yaml.maxDepth) :
    let done := v.perform host histories
    done.exitStatus = 0 ∧ LoadsAs p.toYamlText p ∧
      (done.output = p.toYamlText ↔ p.endsBlank = false) ∧
      (p.endsBlank = false → LoadsAs done.output p) := by
  intro done
  obtain ⟨output, exit⟩ := v.output_convert host histories command settings loads
  have whole : LoadsAs p.toYamlText p :=
    loadsAs_of_ofYamlText (p.ofYamlText_toYamlText (Host.keysDistinct_of_loaded loads) shallow)
  have uncut : done.output = p.toYamlText ↔ p.endsBlank = false :=
    output ▸ p.fileText_yaml_iff
  exact ⟨exit, whole, uncut, fun kept => uncut.mpr kept ▸ whole⟩

/-- Surroundings in which every file holds the JSON document of the pipeline. -/
def Host.holding (p : Pipeline) : Host where
  file _ := .ok p.toJsonText
  input := .ok ""
  historyPath := "runs"
  id := ⟨7⟩
  now := ⟨5⟩
  display := ⟨false⟩

theorem Host.pipeline?_holding {p : Pipeline} (distinct : p.KeysDistinct)
    (shallow : p.toJson.depth ≤ Json.maxDepth) (kept : p.DoublesKept)
    (unknown : Script.UnknownTypes) {path : String} (named : Form.ofPath path = .json) :
    (holding p).pipeline? unknown path = some p := by
  have read : (Pipeline.read (.ofPath path) unknown p.toJsonText).result = .ok p := by
    rw [named, Pipeline.read, Pipeline.ofJsonText, Pipeline.readWhole_toJsonText distinct shallow,
      Pipeline.reread_of_kept kept]
  exact congrArg Except.toOption read

/-- Texts that look like something else, that have several lines or blanks at their ends, and a last
cache key that ends with a line feed. -/
def Pipeline.disguised : Pipeline where
  name := "null"
  version := "1.0"
  description := " two\n lines \n"
  domain := some ""
  vars := [("~", .string "0x1f"), ("a: b", .array [.string "- c", .string "007", .object []])]
  steps := [{ atom := ⟨.data, "load", [("", .string "yes\t")]⟩, condition := some "# no" },
    { atom := ⟨.report, "show", []⟩, cacheKey := some "first\nlast\n" }]

/-- What is printed of disguised texts is loaded as the same texts. -/
theorem masked_comes_back :
    let v : Invocation := { command := .convert "masked.json" .yaml }
    let host := Host.holding .disguised
    host.config? none = some {} ∧
      host.pipeline? (.substitute .data) "masked.json" = some .disguised ∧
      Pipeline.disguised.toJson.depth ≤ Yaml.maxDepth ∧ Pipeline.disguised.endsBlank = false ∧
      LoadsAs (v.perform host []).output .disguised := by
  intro v host
  have loads : host.pipeline? (.substitute .data) "masked.json" = some .disguised :=
    Host.pipeline?_holding (by decide) (by decide) (by decide) _ (by decide)
  have shallow : Pipeline.disguised.toJson.depth ≤ Yaml.maxDepth := by decide
  have kept : Pipeline.disguised.endsBlank = false := by decide
  obtain ⟨-, -, -, comes_back⟩ :=
    converted_to_yaml_comes_back v host [] rfl rfl loads shallow
  exact ⟨rfl, loads, shallow, kept, comes_back kept⟩

/-! ## What is lost -/

/-- A text is loaded as one pipeline at most. -/
theorem LoadsAs.unique {text : String} {p q : Pipeline} (here : LoadsAs text p)
    (there : LoadsAs text q) : p = q := by
  have named : Form.ofPath "copy.yaml" = .yaml := by decide
  let host : Host := { Host.holding p with file := fun _ => .ok text }
  exact Option.some.inj ((here host _ .reject named rfl).symm.trans (there host _ .reject named rfl))

/-- A last cache key that stands without quotes comes back without the blanks at its end. -/
theorem loadsAs_without_blanks (p : Pipeline) (step : Step) {s t : String}
    (plain : Yaml.styleOf s = .plain) (padded : Yaml.styleOf (s ++ t) = .plain)
    (blank : t.toList.all Text.isBlank = true) (solid : Yaml.endsBlank s = false)
    (distinct : (p.push { step with cacheKey := some s }).KeysDistinct)
    (shallow : (p.push { step with cacheKey := some s }).toJson.depth ≤ Yaml.maxDepth) :
    LoadsAs ((p.push { step with cacheKey := some (s ++ t) }).fileText .yaml ++ "\n")
      (p.push { step with cacheKey := some s }) := by
  rw [p.fileText_push_blanks step plain padded blank]
  exact loadsAs_of_ofYamlText (Pipeline.ofYamlText_fileText distinct shallow
    ((p.endsBlank_push _).trans solid))

/-- A step with a cache key, and nothing else. -/
def Pipeline.cachedAs (key : String) : Pipeline :=
  Pipeline.push { name := "p" } { atom := ⟨.data, "load", []⟩, cacheKey := some key }

/-- A key that ends in a no-break space is loaded without it from what is printed. -/
theorem padded_key_is_cut :
    let v : Invocation := { command := .convert "keyed.json" .yaml }
    let host := Host.holding (.cachedAs "a\u00a0")
    host.config? none = some {} ∧
      host.pipeline? (.substitute .data) "keyed.json" = some (.cachedAs "a\u00a0") ∧
      (Pipeline.cachedAs "a\u00a0").toJson.depth ≤ Json.maxDepth ∧
      ¬ LoadsAs (v.perform host []).output (.cachedAs "a\u00a0") := by
  intro v host
  have shallow : (Pipeline.cachedAs "a\u00a0").toJson.depth ≤ Json.maxDepth := by decide
  have loads : host.pipeline? (.substitute .data) "keyed.json" = some (.cachedAs "a\u00a0") :=
    Host.pipeline?_holding (by decide) shallow (by decide) _ (by decide)
  refine ⟨rfl, loads, shallow, fun comes_back => ?_⟩
  have cut : LoadsAs ((Pipeline.cachedAs ("a" ++ "\u00a0")).fileText .yaml ++ "\n")
      (.cachedAs "a") :=
    loadsAs_without_blanks { name := "p" } { atom := ⟨.data, "load", []⟩ } (by decide) (by decide)
      (by decide) (by decide) (by decide) (by decide)
  have apart : "a\u00a0" = "a" ++ "\u00a0" := by decide
  rw [(v.output_convert host [] rfl rfl loads).1, apart] at comes_back
  have keys := congrArg (fun p => p.steps.map Step.cacheKey) (comes_back.unique cut)
  exact absurd keys (by decide)

end Pipework
