import Mathlib.Data.List.DropRight
import Mathlib.Data.List.Infix

/-!
# File trees with symbolic links

A path is walked segment by segment from a directory. A symbolic link is replaced by its target, at most a given
number of times. A strict walk stops at what is missing, and so finds the location of what a path names; a lax walk
goes on by name, and so says where a path leads even before it is created.
-/

namespace FileTree

/-- What stands between two slashes of a path. -/
inductive Segment
  | empty
  | current
  | parent
  | name (text : String)
  deriving DecidableEq

/-- A path as it is written. -/
structure FilePath where
  absolute : Bool
  segments : List Segment
  deriving DecidableEq

/-- Where something is: the names from the root down. -/
abbrev Location := List String

/-- What a directory holds under a name. -/
inductive Node
  | file
  | directory (entries : List (String × Node))
  | link (target : FilePath)

/-- What is at a location below a node. Links are not followed. -/
def Node.find : Node → Location → Option Node
  | node, [] => some node
  | .directory entries, name :: rest => (entries.lookup name).bind fun child => child.find rest
  | _, _ :: _ => none

/-- A tree: the entries of its root. -/
structure Tree where
  entries : List (String × Node)

/-- Segments that stay where they are. -/
def Segment.isCurrent : Segment → Bool
  | .empty | .current => true
  | _ => false

/-- Where a path starts when it is read in a directory. -/
def FilePath.startIn (path : FilePath) (here : Location) : Location := if path.absolute then [] else here

variable {here location : Location}

namespace Tree

variable (tree : Tree)

/-- What is at a location. -/
def node (location : Location) : Option Node := (Node.directory tree.entries).find location

def isDirectory (location : Location) : Bool :=
  match tree.node location with
  | some (.directory _) => true
  | _ => false

def isLink (location : Location) : Bool :=
  match tree.node location with
  | some (.link _) => true
  | _ => false

/-- Walk to the first link, and follow it. -/
def walkTo (strict : Bool) (follow : Location → List Segment → Option Location) :
    Location → List Segment → Option Location
  | here, [] => some here
  | here, .name text :: rest =>
    match tree.node (here ++ [text]) with
    | some (.link target) => follow (target.startIn here) (target.segments ++ rest)
    | some _ => walkTo strict follow (here ++ [text]) rest
    | none => if strict then none else walkTo strict follow (here ++ [text]) rest
  | here, .parent :: rest =>
    if strict && !tree.isDirectory here then none else walkTo strict follow here.dropLast rest
  | here, .current :: rest | here, .empty :: rest =>
    if strict && !tree.isDirectory here then none else walkTo strict follow here rest

/-- Walk along segments, following at most as many links as given. -/
def walk (strict : Bool) : ℕ → Location → List Segment → Option Location
  | 0 => tree.walkTo strict fun _ _ => none
  | links + 1 => tree.walkTo strict (walk strict links)

/-- The location of what a path names. -/
def resolve (links : ℕ) (here : Location) (path : FilePath) : Option Location :=
  tree.walk true links (path.startIn here) path.segments

/-- The location a path leads to, whether or not something is there. -/
def leads (links : ℕ) (here : Location) (path : FilePath) : Option Location :=
  tree.walk false links (path.startIn here) path.segments

/-! ### What is at a location -/

variable {tree}

theorem find_append (node : Node) (location rest : Location) :
    node.find (location ++ rest) = (node.find location).bind fun child => child.find rest := by
  induction location generalizing node with
  | nil => rfl
  | cons name location ih =>
    cases node with
    | file => rfl
    | link target => rfl
    | directory entries =>
      simp only [List.cons_append, Node.find]
      cases entries.lookup name with
      | none => rfl
      | some child => exact ih child

/-- Something below a location makes it a directory. -/
theorem isDirectory_of_below {name : String} {node : Node} (h : tree.node (location ++ [name]) = some node) :
    tree.isDirectory location = true := by
  rw [Tree.node, find_append] at h
  obtain ⟨above, habove, hbelow⟩ := Option.bind_eq_some_iff.mp h
  rw [isDirectory, Tree.node, habove]
  cases above with
  | directory entries => rfl
  | file => cases hbelow
  | link target => cases hbelow

/-- What is at a location has directories above it. -/
theorem isDirectory_above {rest : Location} (hrest : rest ≠ []) {node : Node}
    (h : tree.node (location ++ rest) = some node) : tree.isDirectory location = true := by
  obtain ⟨name, rest, rfl⟩ := List.exists_cons_of_ne_nil hrest
  rw [Tree.node, List.append_cons, find_append] at h
  obtain ⟨above, habove, _⟩ := Option.bind_eq_some_iff.mp h
  exact isDirectory_of_below habove

theorem isDirectory_dropLast {node : Node} (h : tree.node location = some node) :
    tree.isDirectory location.dropLast = true := by
  rcases List.eq_nil_or_concat location with rfl | ⟨above, name, rfl⟩
  · rfl
  · rw [List.concat_eq_append] at h ⊢
    rw [List.dropLast_concat]
    exact isDirectory_of_below h

/-- A location where something is that is no link. -/
def Settled (tree : Tree) (location : Location) : Prop :=
  tree.isLink location = false ∧ ∃ node, tree.node location = some node

theorem settled_of_isDirectory (h : tree.isDirectory location = true) : Settled tree location := by
  unfold isDirectory at h
  unfold Settled isLink
  cases hnode : tree.node location with
  | none => simp [hnode] at h
  | some node => cases node <;> simp_all

/-- A strict walk ends at something that is no link. -/
theorem settled_of_walk {links : ℕ} {segments : List Segment} (hhere : Settled tree here)
    (h : tree.walk true links here segments = some location) : Settled tree location := by
  have hwalkTo {follow : Location → List Segment → Option Location}
      (hfollow : ∀ here segments, Settled tree here → follow here segments = some location → Settled tree location)
      (segments : List Segment) : ∀ here, Settled tree here →
        tree.walkTo true follow here segments = some location → Settled tree location := by
    induction segments with
    | nil =>
      intro here hhere h
      cases h
      exact hhere
    | cons segment rest ih =>
      intro here hhere h
      cases segment with
      | name text =>
        unfold walkTo at h
        split at h
        · rename_i target hlink
          refine hfollow _ _ ?_ h
          unfold FilePath.startIn
          split
          · exact settled_of_isDirectory rfl
          · exact hhere
        · rename_i node hplain hnode
          refine ih _ ⟨?_, node, hnode⟩ h
          unfold isLink
          rw [hnode]
          split
          · rename_i target heq
            exact absurd (Option.some.inj heq) (hplain target)
          · rfl
        · cases h
      | parent =>
        unfold walkTo at h
        split at h
        · cases h
        · obtain ⟨_, node, hnode⟩ := hhere
          exact ih _ (settled_of_isDirectory (isDirectory_dropLast hnode)) h
      | current =>
        unfold walkTo at h
        split at h
        · cases h
        · exact ih _ hhere h
      | empty =>
        unfold walkTo at h
        split at h
        · cases h
        · exact ih _ hhere h
  induction links generalizing here segments with
  | zero => exact hwalkTo (fun _ _ _ hnone => by cases hnone) segments here hhere h
  | succ links ih => exact hwalkTo (fun _ _ hsettled hfound => ih hsettled hfound) segments here hhere h

/-! ### Walking along names -/

/-- No link among the locations that names pass through. -/
def LinkFree (tree : Tree) (here : Location) (names : List String) : Prop :=
  ∀ passed, passed ≠ [] → passed <+: names → tree.isLink (here ++ passed) = false

theorem walk_nil (strict : Bool) (links : ℕ) (here : Location) : tree.walk strict links here [] = some here := by
  cases links <;> rfl

/-- Names without links are walked as they are. -/
theorem walk_append (links : ℕ) {names : List String} (hfree : LinkFree tree here names) (rest : List Segment) :
    tree.walk false links here (names.map Segment.name ++ rest) = tree.walk false links (here ++ names) rest := by
  have hwalkTo (follow : Location → List Segment → Option Location) :
      tree.walkTo false follow here (names.map Segment.name ++ rest) = tree.walkTo false follow (here ++ names) rest := by
    induction names generalizing here with
    | nil => simp
    | cons name names ih =>
      have hname : tree.isLink (here ++ [name]) = false := hfree [name] (List.cons_ne_nil _ _) (by simp)
      have hnames : LinkFree tree (here ++ [name]) names := by
        intro passed hpassed hpasses
        rw [List.append_assoc]
        exact hfree (name :: passed) (List.cons_ne_nil _ _) (List.prefix_cons_inj name |>.mpr hpasses)
      rw [List.map_cons, List.cons_append, walkTo]
      rw [isLink] at hname
      cases hnode : tree.node (here ++ [name]) with
      | none => simpa using ih hnames
      | some node =>
        rw [hnode] at hname
        cases node with
        | link target => cases hname
        | file => simpa using ih hnames
        | directory entries => simpa using ih hnames
  cases links <;> exact hwalkTo _

/-- The names down to something that is no link pass no link. -/
theorem linkFree_of_settled (h : Settled tree location) : LinkFree tree [] location := by
  intro passed hpassed hpasses
  obtain ⟨rest, rfl⟩ := hpasses
  rw [List.nil_append]
  by_cases hrest : rest = []
  · rw [hrest, List.append_nil] at h
    exact h.1
  · obtain ⟨_, node, hnode⟩ := h
    exact (settled_of_isDirectory (isDirectory_above hrest hnode)).1

/-- Either names pass no link, or there is a first one. -/
theorem linkFree_or_first (tree : Tree) (here : Location) (names : List String) :
    LinkFree tree here names ∨ ∃ before name after, names = before ++ name :: after ∧ LinkFree tree here before ∧
      tree.isLink (here ++ before ++ [name]) = true := by
  induction names generalizing here with
  | nil =>
    refine .inl fun passed hpassed hpasses => absurd ?_ hpassed
    simpa using hpasses
  | cons name names ih =>
    cases hlink : tree.isLink (here ++ [name]) with
    | true =>
      refine .inr ⟨[], name, names, rfl, ?_, by simpa using hlink⟩
      intro passed hpassed hpasses
      exact absurd (by simpa using hpasses) hpassed
    | false =>
      have hcons {before : List String} (hbefore : LinkFree tree (here ++ [name]) before) :
          LinkFree tree here (name :: before) := by
        intro passed hpassed hpasses
        obtain ⟨first, passed, rfl⟩ := List.exists_cons_of_ne_nil hpassed
        obtain ⟨rfl, htail⟩ := List.cons_prefix_cons.mp hpasses
        by_cases hrest : passed = []
        · rw [hrest]
          exact hlink
        · have hlater := hbefore passed hrest htail
          rwa [List.append_assoc] at hlater
      rcases ih (here ++ [name]) with hfree | ⟨before, next, after, rfl, hfree, hnext⟩
      · exact .inl (hcons hfree)
      · exact .inr ⟨name :: before, next, after, rfl, hcons hfree, by simpa using hnext⟩

end Tree

end FileTree
