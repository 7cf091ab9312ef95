import Trawl.Json.Reader
import Trawl.Settings

/-!
# Reading settings

Settings are written as a JSON object in which everything may be left out. Unknown fields do not
matter.
-/

namespace Trawl.Settings

/-- Counts are numbers of 64 bits. -/
def countBound : Nat := 0x10000000000000000

/-- The field of a count. -/
def countField {σ : Type} (count : Count σ) : Json.Reader.Field σ :=
  ⟨count.name, fun s => do return count.set (← Json.Reader.natural countBound) s⟩

/-- The limits of classification. What is left out has its default, whatever else is read. -/
def classifierField : Json.Reader.Field Settings :=
  ⟨classifierName, fun s => do
    let fields := classifierCounts.map countField
    return { s with classifier := ← Json.Reader.record fields ({} : Settings).classifier }⟩

/-- What happens when a predicate fails. -/
def policyField : Json.Reader.Field Settings :=
  ⟨policyName, fun s => do
    return { s with onPredicateFailure := ← Json.Reader.oneOf policyNames }⟩

/-- All fields, in the order of a list of values. -/
def fields : List (Json.Reader.Field Settings) :=
  counts.map countField ++ [classifierField, policyField]

/-- The settings that a text holds. -/
def parse (text : String) : Except Json.ReadFault Settings :=
  Json.Reader.readAll (Json.Reader.record fields {}) text

end Trawl.Settings
