import LodeDB.Cloud.Inventory
import LodeDB.Lib.FileTree

/-!
# Keeping paths inside a store

The guard that every artifact path passes: the candidate is canonicalised through its longest prefix that exists, the
rest is appended by name, and the result must be the root or below it. A `..` after something that does not exist
makes the whole candidate be collapsed by name instead.

An appended name can still be a symbolic link: one that dangles, one that leads to a file and is followed by a slash,
or any one in a collapsed path. A returned path leads out of the root exactly if the first such link does.
-/

namespace LodeDB.Cloud

open FileTree

variable {candidate existing path : FilePath} {names tail : List String} {location : Location}

/-- A file tree, the directory a process works in, and the number of links a lookup follows. -/
structure FileSystem where
  tree : Tree
  workingDirectory : Location
  links : ℕ
  working : tree.isDirectory workingDirectory = true

/-! ### Paths -/

/-- The text of a segment. -/
def segmentText : Segment → String
  | .empty => ""
  | .current => "."
  | .parent => ".."
  | .name text => text

/-- The text of a path. -/
def pathText (path : FilePath) : String :=
  (if path.absolute then "/" else "") ++ "/".intercalate (path.segments.map segmentText)

/-- The path of some names from the root. -/
def pathOf (names : List String) : FilePath := ⟨true, names.map .name⟩

/-- The segments without those that stay where they are. -/
def components (path : FilePath) : List Segment := path.segments.filter fun segment => !segment.isCurrent

/-- The last component, if it is a name. -/
def fileName (path : FilePath) : Option String :=
  match (components path).getLast? with
  | some (.name text) => some text
  | _ => none

/-- Without the segments at the end that stay where they are. -/
def trimEnd (segments : List Segment) : List Segment := segments.rdropWhile Segment.isCurrent

/-- The leading `.` of a relative path. -/
def leadingDot (path : FilePath) : List Segment :=
  if path.absolute = false ∧ path.segments.head? = some .current then [.current] else []

/-- Drop the last component. A leading `.` stays. -/
def pop (path : FilePath) : FilePath :=
  ⟨path.absolute, leadingDot path ++ trimEnd (trimEnd (path.segments.drop (leadingDot path).length)).dropLast⟩

/-- Whether a path is another one or below it. -/
def startsWith (path base : FilePath) : Bool :=
  path.absolute == base.absolute && (components base).isPrefixOf (components path)

/-- The location of what a path names; the empty path names nothing. -/
def canonicalize (fs : FileSystem) (path : FilePath) : Option Location :=
  if path.absolute = false ∧ path.segments = [] then none
  else fs.tree.resolve fs.links fs.workingDirectory path

/-! ### The guard -/

/-- Collapse one segment by name. -/
def collapse (names : List String) : Segment → List String
  | .parent => names.dropLast
  | .name text => names ++ [text]
  | .current | .empty => names

/-- Collapse `.` and `..` by name. -/
def lexicalNormalize (path : FilePath) : FilePath :=
  { path with segments := (path.segments.foldl collapse []).map .name }

/-- Look for the longest prefix that exists; its location gets the names after it. -/
def canonicalResolveFrom (fs : FileSystem) (candidate : FilePath) : ℕ → FilePath → List String → FilePath
  | 0, _, _ => lexicalNormalize candidate
  | fuel + 1, existing, tail =>
    match canonicalize fs existing with
    | some location => lexicalNormalize (pathOf (location ++ tail))
    | none =>
      match fileName existing with
      | some name => canonicalResolveFrom fs candidate fuel (pop existing) (name :: tail)
      | none => lexicalNormalize candidate

/-- Resolve a path that need not exist. Each round drops a component. -/
def canonicalResolve (fs : FileSystem) (candidate : FilePath) : FilePath :=
  canonicalResolveFrom fs candidate (candidate.segments.length + 1) candidate []

/-- Resolve a path and check that it stays within a root. -/
def resolveWithin (fs : FileSystem) (root candidate : FilePath) : Except ArtifactStoreError FilePath :=
  let rootReal := canonicalResolve fs root
  let resolved := canonicalResolve fs candidate
  if resolved = rootReal ∨ startsWith resolved rootReal = true then .ok resolved
  else .error (.integrity ("path " ++ quoted (pathText candidate) ++ " escapes store root " ++
    quoted (pathText rootReal)))

/-! ### Where resolution stops -/

/-- Where resolution stops, and which names it appends: at the longest prefix that exists; or, if a `..` comes before
one, at the root, with the names of the collapsed candidate. -/
inductive Stops (fs : FileSystem) (candidate : FilePath) : FilePath → List String → Location → List String → Prop
  | found {existing : FilePath} {tail : List String} {location : Location}
    (hfound : canonicalize fs existing = some location) : Stops fs candidate existing tail location tail
  | missing {existing : FilePath} {tail names : List String} {location : Location} {name : String}
    (hmissing : canonicalize fs existing = none) (hname : fileName existing = some name)
    (hrest : Stops fs candidate (pop existing) (name :: tail) location names) :
    Stops fs candidate existing tail location names
  | collapsed {existing : FilePath} {tail : List String} (hmissing : canonicalize fs existing = none)
    (hname : fileName existing = none) (habsolute : candidate.absolute = true) :
    Stops fs candidate existing tail [] (candidate.segments.foldl collapse [])

theorem foldl_collapse_names (names kept : List String) :
    (names.map Segment.name).foldl collapse kept = kept ++ names := by
  induction names generalizing kept with
  | nil => simp
  | cons name names ih => rw [List.map_cons, List.foldl_cons, collapse, ih, List.append_assoc, List.singleton_append]

@[simp] theorem lexicalNormalize_pathOf (names : List String) : lexicalNormalize (pathOf names) = pathOf names := by
  rw [lexicalNormalize, pathOf, foldl_collapse_names, List.nil_append]

theorem length_trimEnd_le (segments : List Segment) : (trimEnd segments).length ≤ segments.length :=
  (List.rdropWhile_prefix _ _).length_le

theorem leadingDot_append_drop (path : FilePath) :
    leadingDot path ++ path.segments.drop (leadingDot path).length = path.segments := by
  unfold leadingDot
  split
  · rename_i hdot
    cases hsegments : path.segments with
    | nil => simp [hsegments] at hdot
    | cons segment rest =>
      rw [hsegments, List.head?_cons, Option.some.injEq] at hdot
      rw [hdot.2]
      rfl
  · rfl

/-- Dropping a component that is a name leaves fewer segments. -/
theorem length_pop_lt {name : String} (h : fileName path = some name) :
    (pop path).segments.length < path.segments.length := by
  have hsplit := leadingDot_append_drop path
  generalize hbody : path.segments.drop (leadingDot path).length = body at hsplit
  have hne : trimEnd body ≠ [] := by
    intro hempty
    have hall := List.rdropWhile_eq_nil_iff.mp hempty
    have hnone : components path = [] := by
      rw [components, ← hsplit, List.filter_append, List.append_eq_nil_iff, List.filter_eq_nil_iff,
        List.filter_eq_nil_iff]
      refine ⟨?_, fun segment hseg => by simp [hall segment hseg]⟩
      unfold leadingDot
      split <;> simp [Segment.isCurrent]
    rw [fileName, hnone] at h
    cases h
  have hlast := length_trimEnd_le (trimEnd body).dropLast
  have hbodyLength := length_trimEnd_le body
  have hpos := List.length_pos_iff.mpr hne
  rw [List.length_dropLast] at hlast
  have hlengths := congrArg List.length hsplit
  rw [List.length_append] at hlengths
  rw [pop, hbody, List.length_append]
  omega

variable {fs : FileSystem}

/-- The search finds where resolution stops. -/
theorem Stops.canonicalResolveFrom_eq (h : Stops fs candidate existing tail location names) {fuel : ℕ}
    (hfuel : existing.segments.length < fuel) :
    canonicalResolveFrom fs candidate fuel existing tail = pathOf (location ++ names) := by
  induction h generalizing fuel with
  | found hfound =>
    obtain ⟨fuel, rfl⟩ := Nat.exists_eq_succ_of_ne_zero (Nat.ne_zero_of_lt hfuel)
    simp only [canonicalResolveFrom, hfound, lexicalNormalize_pathOf]
  | missing hmiss hname _ ih =>
    obtain ⟨fuel, rfl⟩ := Nat.exists_eq_succ_of_ne_zero (Nat.ne_zero_of_lt hfuel)
    have hshorter := length_pop_lt hname
    simp only [canonicalResolveFrom, hmiss, hname]
    exact ih (by omega)
  | collapsed hmiss hname habs =>
    obtain ⟨fuel, rfl⟩ := Nat.exists_eq_succ_of_ne_zero (Nat.ne_zero_of_lt hfuel)
    simp only [canonicalResolveFrom, hmiss, hname, lexicalNormalize, habs]
    rfl

/-- The search stops somewhere, or its result is relative. -/
theorem exists_stops (fs : FileSystem) (candidate : FilePath) (fuel : ℕ) (existing : FilePath) (tail : List String)
    (hfuel : existing.segments.length < fuel)
    (habs : (canonicalResolveFrom fs candidate fuel existing tail).absolute = true) :
    ∃ location names, Stops fs candidate existing tail location names := by
  induction fuel generalizing existing tail with
  | zero => exact absurd hfuel (Nat.not_lt_zero _)
  | succ fuel ih =>
    cases hfound : canonicalize fs existing with
    | some location => exact ⟨location, tail, .found hfound⟩
    | none =>
      cases hname : fileName existing with
      | some name =>
        have hshorter := length_pop_lt hname
        simp only [canonicalResolveFrom, hfound, hname] at habs
        obtain ⟨location, names, hstops⟩ := ih (pop existing) (name :: tail) (by omega) habs
        exact ⟨location, names, .missing hfound hname hstops⟩
      | none =>
        simp only [canonicalResolveFrom, hfound, hname] at habs
        exact ⟨[], _, .collapsed hfound hname habs⟩

theorem settled_of_canonicalize (h : canonicalize fs path = some location) : Tree.Settled fs.tree location := by
  unfold canonicalize at h
  split at h
  · cases h
  · refine Tree.settled_of_walk ?_ h
    unfold FilePath.startIn
    split
    · exact Tree.settled_of_isDirectory rfl
    · exact Tree.settled_of_isDirectory fs.working

/-- Resolution stops at a location without links. -/
theorem Stops.settled (h : Stops fs candidate existing tail location names) : Tree.Settled fs.tree location := by
  induction h with
  | found hfound => exact settled_of_canonicalize hfound
  | missing _ _ _ ih => exact ih
  | collapsed _ _ _ => exact Tree.settled_of_isDirectory rfl

/-! ### Where a returned path leads -/

/-- Following every link of a path ends at a location. -/
def leads (fs : FileSystem) (path : FilePath) : Option Location := fs.tree.leads fs.links fs.workingDirectory path

/-- The first link among the appended names of an accepted result, if any, leads below the root. -/
def AppendedLinksInside (fs : FileSystem) (rootReal : Location) (candidate : FilePath) : Prop :=
  ∀ location names, Stops fs candidate candidate [] location names → rootReal <+: location ++ names →
    ∀ before name after, names = before ++ name :: after → Tree.LinkFree fs.tree location before →
      fs.tree.isLink (location ++ before ++ [name]) = true →
      ∀ reached, fs.tree.walk false fs.links (location ++ before) ((name :: after).map .name) = some reached →
        rootReal <+: reached

theorem components_pathOf (names : List String) : components (pathOf names) = names.map .name := by
  rw [components, pathOf, List.filter_eq_self]
  intro segment hseg
  obtain ⟨name, _, rfl⟩ := List.mem_map.mp hseg
  rfl

theorem startsWith_pathOf (names base : List String) : startsWith (pathOf names) (pathOf base) = true ↔ base <+: names := by
  have hinj : Function.Injective Segment.name := fun _ _ h => Segment.name.inj h
  rw [startsWith, components_pathOf, components_pathOf, pathOf, pathOf, beq_self_eq_true, Bool.true_and,
    List.isPrefixOf_iff_prefix, List.prefix_map_iff_of_injective hinj]

theorem Stops.canonicalResolve_eq (h : Stops fs candidate candidate [] location names) :
    canonicalResolve fs candidate = pathOf (location ++ names) := h.canonicalResolveFrom_eq (Nat.lt_succ_self _)

/-- The guard accepts what resolution finds below the root. -/
theorem resolveWithin_eq_ok {root returned : FilePath} {rootReal : Location}
    (hroot : canonicalize fs root = some rootReal) :
    resolveWithin fs root candidate = .ok returned ↔ ∃ location names, Stops fs candidate candidate [] location names ∧
      rootReal <+: location ++ names ∧ returned = pathOf (location ++ names) := by
  have hrootResolved : canonicalResolve fs root = pathOf rootReal := by
    have hstops : Stops fs root root [] rootReal [] := .found hroot
    rw [hstops.canonicalResolve_eq, List.append_nil]
  simp only [resolveWithin, hrootResolved]
  constructor
  · intro hok
    split at hok
    · rename_i hacc
      obtain rfl := Except.ok.inj hok
      have habs : (canonicalResolve fs candidate).absolute = true := by
        rcases hacc with hsame | hbelow
        · rw [hsame]
          rfl
        · rw [startsWith, Bool.and_eq_true, beq_iff_eq] at hbelow
          exact hbelow.1
      obtain ⟨location, names, hstops⟩ := exists_stops fs candidate _ candidate [] (Nat.lt_succ_self _) habs
      rw [hstops.canonicalResolve_eq] at hacc ⊢
      refine ⟨location, names, hstops, ?_, rfl⟩
      rcases hacc with hsame | hbelow
      · rw [← startsWith_pathOf, hsame, startsWith_pathOf]
      · exact (startsWith_pathOf _ _).mp hbelow
    · cases hok
  · rintro ⟨location, names, hstops, hbelow, rfl⟩
    rw [hstops.canonicalResolve_eq, if_pos (.inr ((startsWith_pathOf _ _).mpr hbelow))]

/-- The links of a returned path are among the names that were appended. -/
theorem leads_pathOf (hsettled : Tree.Settled fs.tree location) (names : List String) :
    leads fs (pathOf (location ++ names)) = fs.tree.walk false fs.links location (names.map .name) := by
  have hwalk := Tree.walk_append fs.links (Tree.linkFree_of_settled hsettled) (names.map Segment.name)
  rwa [← List.map_append, List.nil_append] at hwalk

/-- A returned path leads below the root exactly if the first link among the appended names does. -/
theorem resolveWithin_leads_inside_iff {fs : FileSystem} (root : FilePath) {rootReal : Location}
    (hroot : canonicalize fs root = some rootReal) (candidate : FilePath) :
    (∀ returned, resolveWithin fs root candidate = .ok returned →
      ∀ reached, leads fs returned = some reached → rootReal <+: reached) ↔
      AppendedLinksInside fs rootReal candidate := by
  constructor
  · intro hinside location names hstops hbelow before name after hnames hfree _ reached hreached
    refine hinside _ ((resolveWithin_eq_ok hroot).mpr ⟨location, names, hstops, hbelow, rfl⟩) reached ?_
    rw [leads_pathOf hstops.settled, hnames, List.map_append, Tree.walk_append _ hfree, hreached]
  · intro hlinks returned hok reached hreached
    obtain ⟨location, names, hstops, hbelow, rfl⟩ := (resolveWithin_eq_ok hroot).mp hok
    rw [leads_pathOf hstops.settled] at hreached
    rcases Tree.linkFree_or_first fs.tree location names with hfree | ⟨before, name, after, hnames, hfree, hlink⟩
    · have hwalk := Tree.walk_append fs.links hfree []
      rw [List.append_nil, hreached, Tree.walk_nil] at hwalk
      rwa [Option.some.inj hwalk]
    · rw [hnames, List.map_append, Tree.walk_append _ hfree] at hreached
      exact hlinks location names hstops hbelow before name after hnames hfree hlink reached hreached

/-- A store next to a directory, with a link to a missing file and a link to a directory of the store. -/
def linkedStore : FileSystem where
  tree := ⟨[("store", .directory [("data", .directory []), ("inner", .link ⟨false, [.name "data"]⟩),
      ("link", .link ⟨true, [.name "outside", .name "new"]⟩)]),
    ("outside", .directory [])]⟩
  workingDirectory := []
  links := 40
  working := rfl

/-- A new file behind a link that leads into the store. -/
theorem resolveWithin_leads_inside_iff_inner :
    AppendedLinksInside linkedStore ["store"] ⟨true, [.name "store", .name "inner", .name "new"]⟩ := by
  refine (resolveWithin_leads_inside_iff ⟨true, [.name "store"]⟩ rfl _).mp ?_
  intro returned hok reached hreached
  have hreturned : resolveWithin linkedStore ⟨true, [.name "store"]⟩ ⟨true, [.name "store", .name "inner", .name "new"]⟩ =
      .ok (pathOf ["store", "data", "new"]) := by decide +kernel
  obtain rfl := Except.ok.inj (hreturned.symm.trans hok)
  have hleads : leads linkedStore (pathOf ["store", "data", "new"]) = some ["store", "data", "new"] := by decide +kernel
  obtain rfl := Option.some.inj (hleads.symm.trans hreached)
  decide

/-- A link that dangles is accepted, and leads out of the store. -/
theorem not_resolveWithin_leads_inside :
    ¬ ∀ (fs : FileSystem) (root candidate returned : FilePath) (rootReal reached : Location),
      canonicalize fs root = some rootReal → fs.tree.isDirectory rootReal = true →
      resolveWithin fs root candidate = .ok returned → leads fs returned = some reached → rootReal <+: reached := by
  intro hinside
  have hbelow := hinside linkedStore ⟨true, [.name "store"]⟩ ⟨true, [.name "store", .name "link"]⟩
    (pathOf ["store", "link"]) ["store"] ["outside", "new"] (by decide +kernel) (by decide +kernel) (by decide +kernel)
    (by decide +kernel)
  revert hbelow
  decide

end LodeDB.Cloud
