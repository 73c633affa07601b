import LodeDB.Filter.Posting

/-!
# Planning a conjunction

A filter with several conjuncts is planned from their statistics. Four plans are tried in order: candidates from one
selective conjunct, an exact denylist around an anchor whose posting is known, a denylist from every conjunct's
failing side, and an anchor with the failing candidates of the others. The choice depends on sizes only; the
thresholds are the source's, with `usize` saturation at `usizeMax`.
-/

namespace LodeDB.Filter

open ExceptRules SortedSet SortedRun

/-- The largest `usize`. -/
def usizeMax : ℕ := 2 ^ 64 - 1

/-- Multiplication that stops at the largest `usize`. -/
def saturatingMul (left right : ℕ) : ℕ := min (left * right) usizeMax

/-- Addition that stops at the largest `usize`. -/
def saturatingAdd (left right : ℕ) : ℕ := min (left + right) usizeMax

/-- What refining a failing candidate costs against materialising a match. -/
def refineCostRatio : ℕ := 16

/-- The numerator of the corpus share above which a blind deferral wins. -/
def blindDeferNum : ℕ := 2

/-- The denominator of the corpus share above which a blind deferral wins. -/
def blindDeferDen : ℕ := 3

/-- How much smaller than its anchor an exact denylist must be. -/
def knockoutVsDenylist : ℕ := 2

/-- Deferred predicate metadata used by the query paths. -/
structure MetadataPredicatePlan where
  matchingCount : Option ℕ
  failingCount : Option ℕ
  failingCandidates : Option DocSet
  failingExact : Bool

/-- A planned metadata filter execution. -/
inductive MetadataFilterPlan
  | materialized (docs : DocSet)
  | filteredCandidates (docs : DocSet)
  | anchoredDenylist (anchor failingCandidates : DocSet)
  | predicate (plan : MetadataPredicatePlan)

/-- One conjunct: an entry of a node, or a filter of an `$and`. -/
inductive AndConjunct
  | entry (part : String × Value)
  | filter (part : Value)

/-- Walk a conjunct. -/
def AndConjunct.walk {A : Type*} (conjunct : AndConjunct) (walk : Traversal A) : A :=
  match conjunct with
  | .entry part => walk.filterEntry part
  | .filter part => walk.filter part

/-- What the planner knows about one conjunct. -/
structure ConjunctStats where
  conjunct : AndConjunct
  matchingCount : Option ℕ
  matchingProbe : Option ProbeInfo
  failingCount : Option ℕ
  failingProbe : Option ProbeInfo
  matchingProbeExact : Bool

variable (stat : ConjunctStats)

/-- The bound of a conjunct whose matching probe is known to exist. -/
def ConjunctStats.matchingBound : ℕ := (stat.matchingProbe.map ProbeInfo.count).getD 0

/-- The conjuncts of a filter, if it is a conjunction. -/
def conjunctiveTerms (filter : Value) : Except CoreError (Option (List AndConjunct)) := do
  let node ← okOr filter.asObject (invalid "validated filter must be an object")
  match node with
  | [(key, spec)] =>
    if key = "$and" then
      let subs ← okOr spec.asArray (invalid "validated $and must be a list")
      .ok (some (subs.map .filter))
    else .ok none
  | node => .ok (some (node.map .entry))

/-- The cost of materialising the matching side of a conjunct. -/
def matchingMaterializationCost (total : ℕ) : ℕ :=
  (stat.matchingCount <|> stat.matchingProbe.map ProbeInfo.count).getD total

/-- Whether the conjunct alone would be materialised. -/
def legacySingleConjunctMaterializes (total : ℕ) : Bool :=
  if stat.matchingCount = some 0 ∨ stat.matchingProbe = some ⟨0⟩ then true
  else if stat.matchingCount = some total ∨ stat.failingProbe = some ⟨0⟩ then false
  else if stat.failingProbe.any fun probe =>
      saturatingMul probe.count refineCostRatio < matchingMaterializationCost stat total then false
  else if stat.matchingCount.any fun count =>
      saturatingMul count blindDeferDen > saturatingMul total blindDeferNum then false
  else true

/-- Whether a failing side is small enough to be refined. -/
def failingSideIsSmall (count total : ℕ) : Bool :=
  count = 0 ∨ saturatingMul count blindDeferDen < saturatingMul total (blindDeferDen - blindDeferNum)

/-- Whether the failing side of a conjunct is known and small. -/
def failingRefinementIsSmall (total : ℕ) : Bool :=
  match stat.failingProbe with
  | none => false
  | some probe => failingSideIsSmall (max probe.count (stat.failingCount.getD 0)) total

/-- The statistics of every conjunct but one. -/
def others (stats : List ConjunctStats) (anchorIndex : ℕ) : List ConjunctStats :=
  (stats.zipIdx.filter fun stat => stat.2 ≠ anchorIndex).map Prod.fst

/-- The documents missing from a posting, by merging the two ascending iterations. -/
def complementPosting (allDocs posting : DocSet) : DocSet :=
  (differenceMerge (ascending allDocs) (ascending posting)).toFinset

/-- The documents of a run that pass a test which may fail. -/
def keepDocs (test : String → Except CoreError Bool) : List String → Except CoreError DocSet
  | [] => .ok ∅
  | id :: rest => do
    let passed ← test id
    let kept ← keepDocs test rest
    .ok (if passed then insert id kept else kept)

/-- One anchor for an exact denylist, with the size of the denylist. -/
structure DenylistChoice where
  failingBound : ℕ
  anchorCount : ℕ
  anchorIndex : ℕ
  anchor : ConjunctStats

/-- Smaller denylists come first, then larger anchors, then earlier conjuncts. -/
def DenylistChoice.le (left right : DenylistChoice) : Prop :=
  left.failingBound < right.failingBound ∨ (left.failingBound = right.failingBound ∧
    (right.anchorCount < left.anchorCount ∨
      (left.anchorCount = right.anchorCount ∧ left.anchorIndex ≤ right.anchorIndex)))

instance (left right : DenylistChoice) : Decidable (left.le right) :=
  inferInstanceAs (Decidable (_ ∨ _))

/-- The denylist an anchor would need, if it is exact and small. -/
def denylistChoice (stats : List ConjunctStats) (total : ℕ) (anchor : ConjunctStats × ℕ) :
    Option DenylistChoice :=
  if anchor.1.matchingProbeExact then
    match anchor.1.matchingProbe with
    | none => none
    | some probe =>
      let rest := others stats anchor.2
      if rest.any (·.failingProbe.isNone) then none
      else
        let bound := rest.foldl (fun bound stat =>
          saturatingAdd bound ((stat.failingProbe.map ProbeInfo.count).getD 0)) (total - probe.count)
        if saturatingMul bound knockoutVsDenylist < probe.count then
          some ⟨bound, probe.count, anchor.2, anchor.1⟩
        else none
  else none

section Plans

variable {N : Type*} [LinearOrder N] (asNumber : String → Option N) (fields : FieldIndexes) (allDocs : DocSet)

/-- The probe of a conjunct. -/
def conjunctProbe (conjunct : AndConjunct) : Probe := conjunct.walk (probing asNumber fields allDocs.card)

/-- The statistics of a conjunct. -/
def conjunctStats (conjunct : AndConjunct) : Except CoreError ConjunctStats := do
  let matchingCount ← conjunct.walk (counting asNumber fields allDocs.card)
  let matchingProbe ← (conjunctProbe asNumber fields allDocs conjunct).info .matching
  let failingProbe ← (conjunctProbe asNumber fields allDocs conjunct).info .failing
  let matchingProbeExact ← (conjunctProbe asNumber fields allDocs conjunct).matchingExact
  .ok { conjunct, matchingCount, matchingProbe, failingProbe, matchingProbeExact
        failingCount := matchingCount.map (allDocs.card - ·) }

/-- The candidates of a conjunct on one side. -/
def materializeConjunctProbe (side : ProbeSide) (stat : ConjunctStats) : Except CoreError DocSet :=
  (conjunctProbe asNumber fields allDocs stat.conjunct).docs side

variable (stats : List ConjunctStats)

/-- Candidates from the most selective conjunct. -/
def planSelectiveAnchor : Except CoreError (Option MetadataFilterPlan) :=
  let anchors := stats.zipIdx.filter fun stat =>
    stat.1.matchingProbe.isSome && legacySingleConjunctMaterializes stat.1 allDocs.card
  match anchors.argmin fun stat => stat.1.matchingBound with
  | none => .ok none
  | some anchor =>
    let alternative := ((others stats anchor.2).map (matchingMaterializationCost · allDocs.card)).min?
    if saturatingMul anchor.1.matchingBound refineCostRatio ≥ alternative.getD allDocs.card then .ok none
    else (materializeConjunctProbe asNumber fields allDocs .matching anchor.1).map
      fun docs => some (.filteredCandidates docs)

/-- A denylist from the failing side of every conjunct. -/
def planAllUnselectiveDenylist : Except CoreError (Option MetadataFilterPlan) :=
  if stats.all (failingRefinementIsSmall · allDocs.card) then
    (uniteFrom ∅ (stats.map (materializeConjunctProbe asNumber fields allDocs .failing))).map
      fun failing => some (.predicate ⟨none, none, some failing, false⟩)
  else .ok none

/-- The exact failing documents of a conjunct: inexact candidates are checked. -/
def exactFailingDocs (stat : ConjunctStats) : Except CoreError DocSet := do
  let candidates ← materializeConjunctProbe asNumber fields allDocs .failing stat
  if (conjunctProbe asNumber fields allDocs stat.conjunct).failingExact then .ok candidates else
    keepDocs (fun id => (stat.conjunct.walk (indexedEvaluation asNumber fields id)).map Bool.not)
      (ascending candidates)

/-- The exact denylist of the first choice whose anchor has a posting. -/
def firstDenylist (stats : List ConjunctStats) :
    List DenylistChoice → Except CoreError (Option MetadataFilterPlan)
  | [] => .ok none
  | choice :: rest => do
    match ← choice.anchor.conjunct.walk (postings asNumber fields allDocs) with
    | none => firstDenylist stats rest
    | some posting =>
      let failing ← uniteFrom (complementPosting allDocs posting)
        ((others stats choice.anchorIndex).map (exactFailingDocs asNumber fields allDocs))
      .ok (some (.predicate ⟨some (allDocs.card - failing.card), some failing.card, some failing, true⟩))

/-- An exact denylist around an anchor whose posting is known. -/
def planExactFailingDenylist : Except CoreError (Option MetadataFilterPlan) :=
  firstDenylist asNumber fields allDocs stats
    ((stats.zipIdx.filterMap (denylistChoice stats allDocs.card)).insertionSort DenylistChoice.le)

/-- An exact anchor with the failing candidates of the other conjuncts. -/
def planComplementKnockout : Except CoreError (Option MetadataFilterPlan) :=
  let anchors := stats.zipIdx.filter fun stat => stat.1.matchingProbe.isSome && stat.1.matchingProbeExact
  match anchors.argmin fun stat => stat.1.matchingBound with
  | none => .ok none
  | some anchor =>
    if (others stats anchor.2).all (failingRefinementIsSmall · allDocs.card) then do
      let anchorDocs ← materializeConjunctProbe asNumber fields allDocs .matching anchor.1
      let failing ← uniteFrom ∅
        ((others stats anchor.2).map (materializeConjunctProbe asNumber fields allDocs .failing))
      .ok (some (.anchoredDenylist anchorDocs failing))
    else .ok none

/-- The first plan of a list that applies. -/
def firstPlan : List (Except CoreError (Option MetadataFilterPlan)) → Except CoreError (Option MetadataFilterPlan)
  | [] => .ok none
  | plan :: rest => do
    match ← plan with
    | some plan => .ok (some plan)
    | none => firstPlan rest

/-- Plan a conjunction, if the filter is one. -/
def planConjunctiveFilter (filter : Value) : Except CoreError (Option MetadataFilterPlan) := do
  match ← conjunctiveTerms filter with
  | none => .ok none
  | some conjuncts =>
    if conjuncts.length < 2 then .ok none
    else
      let stats ← conjuncts.mapM (conjunctStats asNumber fields allDocs)
      firstPlan [planSelectiveAnchor asNumber fields allDocs stats,
        planExactFailingDenylist asNumber fields allDocs stats,
        planAllUnselectiveDenylist asNumber fields allDocs stats,
        planComplementKnockout asNumber fields allDocs stats]

end Plans

end LodeDB.Filter
