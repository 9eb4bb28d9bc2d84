import StateEngine.Logging.Record
import StateEngine.Proofs.Json.Showing

/-! Lines of JSON: what they show of a record, and what keeps a record from having one. -/
namespace StateEngine.Logging

open Json

/-- An attribute whose name is one of a record's own, or never counts as an extra. -/
def isStandard (a : Value × Value) : Bool := a.1.text?.any standardNames.contains

namespace LogRecord

/-- A record with attributes set on it in order. -/
def given (r : LogRecord) (attributes : List (Value × Value)) : LogRecord :=
  attributes.foldl (fun r a => r.setAttribute a.1 a.2) r

/-- A record with only those of some attributes that are its own. -/
def own (r : LogRecord) (attributes : List (Value × Value)) : LogRecord := r.given (attributes.filter isStandard)

end LogRecord

end StateEngine.Logging
