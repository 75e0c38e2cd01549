import Concord.Contract.Document
import Concord.Machine.State
import Concord.Profile.Extract

/-!
# Configuration

The settings of an engine, their documents, and the ranges in which they make sense.
-/

namespace Concord

/-- When the canon itself may be proposed. -/
structure TemplateConfig where
  enabled : Bool := false
  /-- The least distance left at which it is proposed. -/
  minDistance : Float := 0.3
deriving Repr, DecidableEq

/-- How log lines are written. -/
inductive LogFormat where
  | text
  | json
deriving Repr, DecidableEq

namespace LogFormat

/-- The name of a format in documents. -/
def name : LogFormat → String
  | text => "text"
  | json => "json"

/-- The format with that name. -/
def ofName? (s : String) : Option LogFormat := [text, json].find? (·.name == s)

end LogFormat

/-- The settings of an engine. -/
structure Config where
  maxIterations : Nat := 5
  mode : Mode := .enhanced
  /-- The naming policy where no other one is given. -/
  naming : Option NamingPolicy := none
  template : TemplateConfig := {}
  probe : Machine.Budget := {}
  oracleTimeoutMs : Nat := 10000
  /-- Whether a proposal that returns to an earlier text is rejected. -/
  visitedGuard : Bool := true
  logFilter : String := "info"
  logFormat : LogFormat := .text
deriving Repr, DecidableEq

/-- The document of a budget. -/
def Machine.Budget.toJson (b : Machine.Budget) : Json :=
  .obj [("fuel", Json.nat b.fuel), ("max_depth", Json.nat b.maxDepth)]

/-- Read a budget. -/
def Machine.Budget.ofJson? (j : Json) : Option Machine.Budget := do
  let [fuel, maxDepth] ← j.openRecord? ["fuel", "max_depth"] | none
  let standard : Machine.Budget := {}
  return {
    fuel := ← Json.withDefault standard.fuel Json.nat? fuel
    maxDepth := ← Json.withDefault standard.maxDepth Json.nat? maxDepth }

/-- The document of the settings of the template. -/
def TemplateConfig.toJson (t : TemplateConfig) : Json :=
  .obj [("enabled", .bool t.enabled), ("min_distance", .float t.minDistance)]

/-- Read the settings of the template. -/
def TemplateConfig.ofJson? (j : Json) : Option TemplateConfig := do
  let [enabled, minDistance] ← j.openRecord? ["enabled", "min_distance"] | none
  let standard : TemplateConfig := {}
  return {
    enabled := ← Json.withDefault standard.enabled Json.bool? enabled
    minDistance := ← Json.withDefault standard.minDistance Json.float? minDistance }

namespace Config

/-- The names of the fields in documents. -/
def fields : List String :=
  ["max_iterations", "extraction_mode", "naming", "template", "probe", "oracle_timeout_ms",
    "visited_guard", "log_filter", "log_format"]

/-- The document of a configuration. -/
def toJson (c : Config) : Json :=
  .obj (fields.zip
    [Json.nat c.maxIterations, .str c.mode.name, (c.naming.map (·.toJson)).getD .null,
      c.template.toJson, c.probe.toJson, Json.nat c.oracleTimeoutMs, .bool c.visitedGuard,
      .str c.logFilter, .str c.logFormat.name])

/-- Read a configuration; missing fields have their defaults. -/
def ofJson? (j : Json) : Option Config := do
  let [maxIterations, mode, naming, template, probe, timeout, guard, filter, format] ←
    j.openRecord? fields | none
  let standard : Config := {}
  return {
    maxIterations := ← Json.withDefault standard.maxIterations Json.nat? maxIterations
    mode := ← Json.withDefault standard.mode (fun j => j.str?.bind Mode.ofName?) mode
    naming := ← Json.optional NamingPolicy.ofJson? naming
    template := ← Json.withDefault standard.template TemplateConfig.ofJson? template
    probe := ← Json.withDefault standard.probe Machine.Budget.ofJson? probe
    oracleTimeoutMs := ← Json.withDefault standard.oracleTimeoutMs Json.nat? timeout
    visitedGuard := ← Json.withDefault standard.visitedGuard Json.bool? guard
    logFilter := ← Json.withDefault standard.logFilter Json.str? filter
    logFormat := ← Json.withDefault standard.logFormat (fun j => j.str?.bind LogFormat.ofName?)
      format }

/-- A setting out of its range. -/
inductive RangeError where
  | maxIterations
  | minDistance (value : Float)
  | fuel
  | maxDepth
deriving Repr, DecidableEq

/-- The words for a setting out of its range. -/
def RangeError.message : RangeError → String
  | maxIterations => "invalid value for max_iterations: must be at least 1"
  | minDistance x =>
    "invalid value for template.min_distance: " ++ Decimal.ofFloat x ++ " is outside [0, 1]"
  | fuel => "invalid value for probe.fuel: must be positive"
  | maxDepth => "invalid value for probe.max_depth: must be positive"

/-- The first setting out of its range. -/
def rangeError? (c : Config) : Option RangeError :=
  if c.maxIterations = 0 then some .maxIterations
  else if !(0 ≤ c.template.minDistance && c.template.minDistance ≤ 1) then
    some (.minDistance c.template.minDistance)
  else if c.probe.fuel = 0 then some .fuel
  else if c.probe.maxDepth = 0 then some .maxDepth
  else none

end Config

end Concord
