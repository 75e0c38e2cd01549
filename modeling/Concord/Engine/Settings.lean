import Concord.Engine.Config
import Concord.Toml.Reader

/-!
# Configurations from settings texts

A settings text gives the configuration of an engine, which then has to be within its ranges.
-/

namespace Concord

/-- Why a settings text gives no configuration. -/
inductive SettingsError where
  | unreadable
  | outOfRange (reason : Config.RangeError)
deriving Repr, DecidableEq

namespace Config

/-- The records among the settings and how many fields each has. -/
def records : List (String × Nat) := [("naming", 3), ("template", 2), ("probe", 2)]

/-- The settings whose values are names. -/
def choices : List String := ["extraction_mode", "log_format"]

/-- A setting in its plain form: in the array of a record's fields what follows them is left out, and
an empty table or array under a name stands for the name. -/
def plainSetting (name : String) (j : Json) : Json :=
  match j, records.lookup name with
  | .arr items, some width => .arr (items.take width)
  | .obj [(chosen, .obj [])], none | .obj [(chosen, .arr [])], none =>
    if choices.contains name then .str chosen else j
  | j, _ => j

/-- Read a configuration from the document of a settings text. -/
def ofSettings? : Json → Option Config
  | .obj fields => ofJson? (.obj (fields.map fun (name, j) => (name, plainSetting name j)))
  | j => ofJson? j

/-- The configuration that a settings text gives. -/
def parse (text : String) : Except SettingsError Config :=
  match (Toml.read? text).bind ofSettings? with
  | none => .error .unreadable
  | some c =>
    match c.rangeError? with
    | some reason => .error (.outOfRange reason)
    | none => .ok c

end Config

end Concord
