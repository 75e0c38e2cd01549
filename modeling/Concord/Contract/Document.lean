import Concord.Contract.Basic
import Concord.Json.Decode

/-!
# Contracts as documents

How policies, contracts and the answers of judges are written as documents and read back.
-/

namespace Concord

namespace NamingPolicy

/-- The document of a policy; where every name is flexible, that field is left out. -/
def toJson (p : NamingPolicy) : Json :=
  .obj ([("fixed", Json.strs p.fixed)] ++
    (match p.flexible with
      | some names => [("flexible", Json.strs names)]
      | none => []) ++
    [("strict", .bool p.strict)])

/-- Read a policy. -/
def ofJson? (j : Json) : Option NamingPolicy := do
  let [fixed, flexible, strict] ← j.openRecord? ["fixed", "flexible", "strict"] | none
  return {
    fixed := ← Json.withDefault [] Json.strSet? fixed
    flexible := ← Json.optional Json.strSet? flexible
    strict := ← Json.withDefault false Json.bool? strict }

end NamingPolicy

namespace Contract

/-- The document of a contract. -/
def toJson (c : Contract) : Json :=
  .obj [("id", .str c.id), ("entry_point", Json.strOrNull c.entryPoint),
    ("description", .str c.description), ("naming", (c.naming.map (·.toJson)).getD .null),
    ("constraints", Json.strs c.constraints)]

/-- Read a contract. -/
def ofJson? (j : Json) : Option Contract := do
  let [id, entryPoint, description, naming, constraints] ←
    j.openRecord? ["id", "entry_point", "description", "naming", "constraints"] | none
  return {
    id := ← Json.need Json.str? id
    entryPoint := ← Json.optional Json.str? entryPoint
    description := ← Json.withDefault "" Json.str? description
    naming := ← Json.optional NamingPolicy.ofJson? naming
    constraints := ← Json.withDefault [] Json.strs? constraints }

end Contract

namespace Verdict

/-- The document of a verdict. -/
def toJson (v : Verdict) : Json :=
  .obj [("passed", .bool v.passed), ("pass_rate", .float v.passRate), ("detail", .str v.detail)]

/-- Read a verdict. -/
def ofJson? (j : Json) : Option Verdict := do
  let [passed, rate, detail] ← j.openRecord? ["passed", "pass_rate", "detail"] | none
  return {
    passed := ← Json.need Json.bool? passed
    passRate := ← Json.need Json.float? rate
    detail := ← Json.withDefault "" Json.str? detail }

end Verdict

namespace Compliance

/-- The document of a report. -/
def toJson (c : Compliance) : Json :=
  .obj [("fully_compliant", .bool c.fullyCompliant), ("score", .float c.score),
    ("violations", Json.strs c.violations)]

/-- Read a report. -/
def ofJson? (j : Json) : Option Compliance := do
  let [compliant, score, violations] ←
    j.openRecord? ["fully_compliant", "score", "violations"] | none
  return {
    fullyCompliant := ← Json.need Json.bool? compliant
    score := ← Json.need Json.float? score
    violations := ← Json.withDefault [] Json.strs? violations }

end Compliance

end Concord
