import Pipework.Run.Execute
import Pipework.Text.Classes
import Pipework.Yaml.Record

/-!
# Configuration

What is set once for all runs: how scripts are read, whether runs are followed
in the log of their context, and whether and where they are remembered. The
settings stand in a YAML document, and each has a default.
-/

namespace Pipework

/-- The settings. -/
structure Config where
  /-- Are module names refused that are no atom type? -/
  strict : Bool := false
  /-- The atom type of such module names, when they are not refused. -/
  fallbackType : AtomType := .data
  logging : Bool := true
  history : Bool := true
  historyPath : Option String := none
  deriving DecidableEq, Repr, Inhabited

/-- Settings that are being read. -/
structure ConfigDraft where
  strict : Option Bool := none
  fallbackType : Option AtomType := none
  logging : Option Bool := none
  history : Option Bool := none
  historyPath : Option (Option String) := none

namespace ConfigDraft

/-- What `unknown_atom_type` may say: are such names refused? -/
def strictness? (name : String) : Option Bool :=
  if name == "fallback" then some false else if name == "reject" then some true else none

/-- The settings that a document may have. -/
def entries : List (Yaml.Member ConfigDraft) := [
  .of "unknown_atom_type" (·.strict) (fun d v => { d with strict := some v }) (Yaml.readVariant strictness?),
  .of "fallback_type" (·.fallbackType) (fun d v => { d with fallbackType := some v })
    (Yaml.readVariant AtomType.ofName?),
  .of "logging_hook" (·.logging) (fun d v => { d with logging := some v }) Yaml.readBool,
  .of "history" (·.history) (fun d v => { d with history := some v }) Yaml.readBool,
  .of "history_path" (·.historyPath) (fun d v => { d with historyPath := some v })
    (Yaml.readOptional Yaml.readText)]

/-- The settings of a draft. -/
def finish (d : ConfigDraft) : Config :=
  { strict := d.strict.getD false
    fallbackType := d.fallbackType.getD .data
    logging := d.logging.getD true
    history := d.history.getD true
    historyPath := d.historyPath.join }

end ConfigDraft

namespace Config

/-- The settings of a YAML document; a blank one changes no default. -/
def ofYamlText (text : String) : Except Yaml.Fault Config :=
  if text.toList.all Text.isBlank then .ok {}
  else (Yaml.decode (Yaml.readRecord ConfigDraft.entries {}) text).map ConfigDraft.finish

/-- What becomes of module names that are no atom type. -/
def unknownTypes (config : Config) : Script.UnknownTypes :=
  if config.strict then .reject else .substitute config.fallbackType

/-- What the setting for such module names is called. -/
def strictnessName (config : Config) : String :=
  if config.strict then "reject" else "fallback"

/-- An executor with these settings. -/
def executor {σ : Type} (config : Config) (registry : Registry σ) : Executor σ :=
  { registry
    hooks := if config.logging then [.logging] else []
    unknownTypes := config.unknownTypes }

end Config

end Pipework
