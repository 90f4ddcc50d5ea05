/-
Settings from a file.

A file that was asked for by name must be there; one that is only looked for in its
usual place may be absent, and then every setting has its default.  The text is YAML.
References in it are replaced by values of the environment before the settings are
checked, so a setting may come from the environment as a whole.
-/
import Scorecard.Config
import Scorecard.Config.Expansion
import Scorecard.Yaml.Document

namespace Scorecard.Config

/-- Why there are no settings. -/
inductive LoadFailure where
  /-- The file that was asked for by name is not there. -/
  | notFound
  | badYaml
  | invalid (issues : List Issue)
  /-- The text is YAML, but one of its values has no meaning. -/
  | fault (f : Fault)

/-- The message of a failure, short of what is peculiar to the file. -/
def LoadFailure.message : LoadFailure → String
  | .notFound => "Config file not found"
  | .badYaml => "Invalid YAML"
  | .invalid _ => "Invalid configuration"
  | .fault f => f.message?.getD ""

/-- The settings that a value describes, its references replaced; an empty value
describes the defaults. -/
def ofExpanded (env : Environment) (v : Value) : Except LoadFailure Config :=
  (ofValue (expand env (if v.isEmpty then .record [] else v.unfolded))).mapError .invalid

/-- The settings that a text writes. -/
def ofText (env : Environment) (text : String) : Except LoadFailure Config :=
  match Value.ofYamlFile text with
  | .ok v => ofExpanded env v
  | .error .badYaml => .error .badYaml
  | .error f => .error (.fault f)

/-- The settings of a file, asked for by name or looked for in its usual place. -/
def load (env : Environment) (byName : Bool) : (file : Option String) → Except LoadFailure Config
  | some text => ofText env text
  | none => if byName then .error .notFound else (ofValue (.record [])).mapError .invalid

end Scorecard.Config
