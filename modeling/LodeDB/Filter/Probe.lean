import LodeDB.Filter.Count

/-!
# Probes: cheap supersets of the matching and the failing side

A probe of a filter bounds the matching or the failing documents by a cheap superset and materialises it. Where all
parts must agree the narrowest part stands for the whole; on the other side the parts are united. `$not` swaps the
sides. Without a probe nothing cheaper than a scan bounds a side.

The source computes the answers by four parallel walks; here one walk computes a `Probe` with all four, since
materialising a part depends on the bounds of its own parts.
-/

namespace LodeDB.Filter

open ExceptRules

/-- The side of a filter a probe bounds. -/
inductive ProbeSide
  | matching
  | failing
  deriving DecidableEq

/-- The other side. -/
def ProbeSide.flip : ProbeSide → ProbeSide
  | .matching => .failing
  | .failing => .matching

/-- The number of candidates a probe would materialise. -/
structure ProbeInfo where
  count : ℕ
  deriving DecidableEq, Inhabited

variable (probes : List (Option ProbeInfo))

/-- The probe with the fewest candidates, the first among equals. -/
def narrowest : Option ProbeInfo :=
  (probes.filterMap id).argmin ProbeInfo.count

/-- The candidates of all probes together, if none is missing. -/
def summed (total : ℕ) : Option ProbeInfo :=
  if none ∈ probes then none else some ⟨min ((probes.filterMap id).map ProbeInfo.count).sum total⟩

/-- The probe of a conjunction. -/
def combineAndProbes (side : ProbeSide) (total : ℕ) : Option ProbeInfo :=
  if probes = [] then
    match side with
    | .matching => some ⟨total⟩
    | .failing => some ⟨0⟩
  else
    match side with
    | .matching => narrowest probes
    | .failing => summed probes total

/-- The probe of a disjunction. -/
def combineOrProbes (side : ProbeSide) (total : ℕ) : Option ProbeInfo :=
  if probes = [] then
    match side with
    | .matching => some ⟨0⟩
    | .failing => some ⟨total⟩
  else
    match side with
    | .matching => summed probes total
    | .failing => narrowest probes

/-- What the planner knows about one part of a filter. -/
structure Probe where
  info : ProbeSide → Except CoreError (Option ProbeInfo)
  docs : ProbeSide → Except CoreError DocSet
  matchingExact : Except CoreError Bool
  failingExact : Bool

/-- A part with its bound on one side, if it has one. -/
def Probe.bounded (side : ProbeSide) (part : Probe) : Option (ℕ × Probe) :=
  match part.info side with
  | .ok (some probe) => some (probe.count, part)
  | _ => none

/-- Materialise the part with the fewest candidates. -/
def materializeNarrowest (missing : String) (side : ProbeSide) (parts : List Probe) :
    Except CoreError DocSet :=
  match (parts.filterMap (Probe.bounded side)).argmin Prod.fst with
  | some chosen => chosen.2.docs side
  | none => .error (invalid missing)

/-- Materialise every part and unite the candidates. -/
def materializeUnion (missing : String) (side : ProbeSide) (docs : DocSet) :
    List Probe → Except CoreError DocSet
  | [] => .ok docs
  | part :: rest => do
    let info ← part.info side
    ensure (info.isSome = true) (invalid missing)
    let found ← part.docs side
    materializeUnion missing side (docs ∪ found) rest

variable (name : String)

/-- The candidates of a conjunction. -/
def materializeAnd (parts : List Probe) (side : ProbeSide) : Except CoreError DocSet :=
  match side with
  | .matching => materializeNarrowest ("validated " ++ name ++ " has no matching probe") side parts
  | .failing => materializeUnion ("validated " ++ name ++ " has no failing probe") side ∅ parts

/-- The candidates of a disjunction. -/
def materializeOr (parts : List Probe) (side : ProbeSide) : Except CoreError DocSet :=
  match side with
  | .matching => materializeUnion ("validated " ++ name ++ " has no matching probe") side ∅ parts
  | .failing => materializeNarrowest ("validated " ++ name ++ " has no failing probe") side parts

/-- The probe of a conjunction of parts. -/
def probeAnd (total : ℕ) (parts : List Probe) : Probe where
  info side := (collect (parts.map (·.info side))).map (combineAndProbes · side total)
  docs := materializeAnd name parts
  matchingExact :=
    match parts with
    | [] => .ok true
    | [part] => part.matchingExact
    | _ => .ok false
  failingExact := parts.all (·.failingExact)

/-- The probe of a disjunction of parts. -/
def probeOr (total : ℕ) (parts : List Probe) : Probe where
  info side := (collect (parts.map (·.info side))).map (combineOrProbes · side total)
  docs := materializeOr name parts
  -- the bound of several branches sums overlapping postings, so it is never exact
  matchingExact :=
    match parts with
    | [part] => part.matchingExact
    | _ => .ok false
  failingExact :=
    match parts with
    | [part] => part.failingExact
    | _ => false

/-- The probe of a negation: the sides change places. -/
def probeNot (part : Probe) : Probe where
  info side := part.info side.flip
  docs side := part.docs side.flip
  matchingExact := .ok false
  failingExact := false

/-- The bound of a test whose matching documents are a posting of the given length. -/
def postingProbe (count total : ℕ) : ProbeSide → Option ProbeInfo
  | .matching => some ⟨count⟩
  | .failing => if count = total then some ⟨0⟩ else none

/-- The candidates of a test whose matching documents are a posting. -/
def postingDocs (docs : DocSet) (total : ℕ) : ProbeSide → Option DocSet
  | .matching => some docs
  | .failing => if docs.card = total then some ∅ else none

section Probe

variable {N : Type*} [LinearOrder N] (asNumber : String → Option N)

variable (index : FieldIndex)

/-- The bound of one operator. -/
def probeOperator (side : ProbeSide) (total : ℕ) (entry : String × Value) : Except CoreError (Option ProbeInfo) :=
  (readOperator plannerValues entry).map fun
    | .eq value => postingProbe (index.posting value).card total side
    | .ne value => postingProbe (index.posting value).card total side.flip
    | .isIn values => postingProbe (unionPostings index values).card total side
    | .notIn values => postingProbe (unionPostings index values).card total side.flip
    | .exists true => postingProbe index.docs.card total side
    | .exists false => postingProbe index.docs.card total side.flip
    | .ordered op operand => postingProbe (countOrdered asNumber index op operand) total side

/-- The candidates of an equality. -/
def materializeEq (value : String) (side : ProbeSide) (total : ℕ) : Except CoreError DocSet :=
  okOr (postingDocs (index.posting value) total side) (invalid "validated equality has no failing probe")

/-- The candidates of one operator. -/
def materializeOperatorProbe (side : ProbeSide) (total : ℕ) (entry : String × Value) :
    Except CoreError (Option DocSet) := do
  match ← readOperator plannerValues entry with
  | .eq value => (materializeEq index value side total).map some
  | .ne value => .ok (postingDocs (index.posting value) total side.flip)
  | .isIn values => .ok (postingDocs (unionPostings index values) total side)
  | .notIn values => .ok (postingDocs (unionPostings index values) total side.flip)
  | .exists true => .ok (postingDocs index.docs total side)
  | .exists false => .ok (postingDocs index.docs total side.flip)
  | .ordered op operand => .ok (postingDocs (resolveOrdered asNumber index op operand) total side)

/-- The error for an operator whose candidates are missing although its bound is not. -/
def disappeared : ProbeSide → CoreError
  | .matching => invalid "validated field matching probe disappeared"
  | .failing => invalid "validated field failing probe disappeared"

/-- The probe of one operator. -/
def operatorProbe (total : ℕ) (entry : String × Value) : Probe where
  info side := probeOperator asNumber index side total entry
  docs side := do
    okOr (← materializeOperatorProbe asNumber index side total entry) (disappeared side)
  matchingExact := (probeOperator asNumber index .matching total entry).map Option.isSome
  failingExact := true

/-- The probe of an equality with a string. -/
def equalityProbe (total : ℕ) (expected : String) : Probe where
  info side := .ok (postingProbe (index.posting expected).card total side)
  docs side := materializeEq index expected side total
  matchingExact := .ok true
  failingExact := true

/-- The probe of an operator map. -/
def operatorsProbe (total : ℕ) (parts : List Probe) : Probe :=
  { probeAnd "field" total parts with
    matchingExact :=
      match parts with
      | [part] => part.matchingExact
      | _ => .ok false }

/-- The probe that reports a malformed filter. -/
def rejectedProbe (error : CoreError) : Probe where
  info _ := .error error
  docs _ := .error error
  matchingExact := .error error
  failingExact := false

/-- The walk that probes a filter. -/
def probing (fields : FieldIndexes) (total : ℕ) : Traversal Probe where
  node := probeAnd "$and" total
  conj := probeAnd "$and" total
  disj := probeOr "$or" total
  neg := probeNot
  field name := readFieldSpec (equalityProbe (fields.index name) total)
    (fun entries => operatorsProbe total (entries.map (operatorProbe asNumber (fields.index name) total)))
    rejectedProbe
  reject := rejectedProbe

/-- The bound of a filter on one side. -/
def probeInfo (filter : Value) (side : ProbeSide) (fields : FieldIndexes) (allDocs : DocSet) :
    Except CoreError (Option ProbeInfo) :=
  ((probing asNumber fields allDocs.card).filter filter).info side

/-- The candidates of a filter on one side. -/
def materializeProbe (filter : Value) (side : ProbeSide) (fields : FieldIndexes) (allDocs : DocSet) :
    Except CoreError DocSet :=
  ((probing asNumber fields allDocs.card).filter filter).docs side

end Probe

end LodeDB.Filter
