import LodeDB.Filter.Predicate
import LodeDB.Graph.Temporal
import LodeDB.Lib.TreeMap

/-!
# Episodes, entities and facts

The records of the temporal graph, and the properties a predicate can test: the top-level scalars, as
text.
-/

namespace LodeDB

namespace Graph

open TreeMapRules
open LodeDB.Filter (Metadata matchesMetadataFilter)

/-- An error of the graph, by where it comes from. -/
inductive GraphError
  | invalidArgument (message : String)
  | notFound (message : String)
  | topology (message : String)
  | index (message : String)
  | embedding (message : String)
  | internal (message : String)
  deriving DecidableEq

/-- The text of an engine error. -/
def coreErrorText (error : CoreError) : String :=
  (match error.code with
    | .invalidArgument => "InvalidArgument"
    | .notFound => "NotFound"
    | .corruptStore => "CorruptStore"
    | .planStale => "PlanStale"
    | .unsupported => "Unsupported"
    | .internal => "Internal") ++ ": " ++ error.message

/-- The text of a graph error. -/
def GraphError.text : GraphError → String
  | .invalidArgument message => "invalid argument: " ++ message
  | .notFound message => "not found: " ++ message
  | .topology message => "topology store error: " ++ message
  | .index message => "semantic index error: " ++ message
  | .embedding message => "embedding error: " ++ message
  | .internal message => "internal error: " ++ message

/-- A raw observation. -/
structure Episode where
  id : String
  source : String
  body : String
  occurredAt : TimeMs
  createdAt : TimeMs
  properties : Value
  deriving DecidableEq

/-- A resolved thing in the world. -/
structure Entity where
  id : String
  entityType : String
  label : String
  properties : Value
  validAt : Option TimeMs
  invalidAt : Option TimeMs
  createdAt : TimeMs
  expiredAt : Option TimeMs
  deriving DecidableEq

/-- A typed, directed relationship between two entities. -/
structure Fact where
  id : String
  src : String
  relation : String
  dst : String
  fact : String
  properties : Value
  episodes : List String
  validAt : Option TimeMs
  invalidAt : Option TimeMs
  createdAt : TimeMs
  expiredAt : Option TimeMs
  referenceTime : Option TimeMs
  deriving DecidableEq

/-- The timestamps of an entity. -/
def Entity.stamps (entity : Entity) : Stamps :=
  ⟨entity.validAt, entity.invalidAt, entity.createdAt, entity.expiredAt⟩

/-- The timestamps of a fact. -/
def Fact.stamps (fact : Fact) : Stamps := ⟨fact.validAt, fact.invalidAt, fact.createdAt, fact.expiredAt⟩

/-- Whether an entity satisfies a frame. -/
def Entity.matches (entity : Entity) (asOf : AsOf) : Bool := frameMatches asOf entity.stamps

/-- Whether a fact satisfies a frame. -/
def Fact.matches (fact : Fact) (asOf : AsOf) : Bool := frameMatches asOf fact.stamps

/-! ### Properties -/

variable (properties : Value)

/-- The top-level properties; a value that is no object has none. -/
def propertyObject : Std.ExtTreeMap String Value compare :=
  writeAll ∅ (properties.asObject.getD [])

/-- The text a scalar property is tested by; arrays and objects have none. -/
def scalarText : Value → Option String
  | .null => some ""
  | .string text => some text
  | .bool flag => some (if flag then "true" else "false")
  | .number text => some text
  | .array _ | .object _ => none

/-- The texts of the scalar properties. -/
def scalarProperties : Metadata :=
  collect (fun _ value => scalarText value) (propertyObject properties)

/-- Absent properties are those of an empty object. -/
def canonicalProperties : Value :=
  match properties with
  | .null => .object []
  | properties => properties

variable {N : Type*} [LinearOrder N] (asNumber : String → Option N)

/-- Whether properties satisfy a validated predicate. A failure is no match. -/
def propertyMatches (properties : Value) (predicate : Option Value) : Bool :=
  match predicate with
  | none => true
  | some predicate => Filter.verdict (matchesMetadataFilter asNumber (scalarProperties properties) predicate)

end Graph

end LodeDB
