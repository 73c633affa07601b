import LodeDB.Filter.Probe

/-!
# Probes bound the sides they claim to bound

`Bounds` is the contract of a probe on one side: planning never fails, and where a bound is given the candidates are
a superset of that side no larger than the bound, and that side itself where the probe calls itself exact. The walk
over a filter keeps what `ProbeSound` collects of these.
-/

namespace LodeDB.Filter

open ExceptRules

variable {N : Type*} [LinearOrder N] {asNumber : String → Option N} {corpus : Corpus}

variable {ι : Type} {side : ProbeSide} {part : Probe} {bound : ProbeInfo} {total : ℕ} {name : String}
  {parts : List Probe}

/-- The documents on one side of a test. -/
def ProbeSide.test (side : ProbeSide) (test : Metadata → Bool) : Metadata → Bool :=
  match side with
  | .matching => test
  | .failing => fun metadata => !test metadata

/-- Whether a probe calls its candidates on one side exact. -/
def Probe.exact (probe : Probe) : ProbeSide → Prop
  | .matching => probe.matchingExact = .ok true
  | .failing => probe.failingExact = true

/-- Candidates for the documents a test selects, at most so many. -/
structure Candidates (corpus : Corpus) (test : Metadata → Bool) (exact : Prop) (count : ℕ) (found : DocSet) :
    Prop where
  superset : corpus.select test ⊆ found
  docs : found ⊆ corpus.allDocs
  card : found.card ≤ count
  equal : exact → found = corpus.select test

/-- A probe that bounds the documents a test selects. -/
def Bounds (corpus : Corpus) (test : Metadata → Bool) (exact : Prop) (info : Except CoreError (Option ProbeInfo))
    (docs : Except CoreError DocSet) : Prop :=
  ∃ result, info = .ok result ∧ ∀ bound, result = some bound → ∃ found, docs = .ok found ∧
    Candidates corpus test exact bound.count found

/-- What a probe promises about a test. -/
structure ProbeSound (corpus : Corpus) (test : Metadata → Bool) (probe : Probe) : Prop where
  decided : ∃ exact, probe.matchingExact = .ok exact
  bounds : ∀ side, Bounds corpus (side.test test) (probe.exact side) (probe.info side) (probe.docs side)

/-- Parts that bound their tests on one side. -/
abbrev BoundsEach (corpus : Corpus) (side : ProbeSide) (parts : List ι) (test : ι → Metadata → Bool)
    (probe : ι → Probe) : Prop :=
  ∀ part ∈ parts, Bounds corpus (test part) ((probe part).exact side) ((probe part).info side) ((probe part).docs side)

variable {test : Metadata → Bool}

/-- A probe promises no less if it calls itself exact less often. -/
theorem Bounds.weaken {exact weaker : Prop} {info : Except CoreError (Option ProbeInfo)}
    {docs : Except CoreError DocSet} (h : Bounds corpus test exact info docs) (hweaker : weaker → exact) :
    Bounds corpus test weaker info docs := by
  obtain ⟨result, hr, hfound⟩ := h
  refine ⟨result, hr, fun bound hbound => ?_⟩
  obtain ⟨found, hdocs, hcands⟩ := hfound bound hbound
  exact ⟨found, hdocs, hcands.superset, hcands.docs, hcands.card, fun h => hcands.equal (hweaker h)⟩

/-- The test of a single part, as a conjunction and as a disjunction. -/
theorem single_test (part : ι) (test : ι → Metadata → Bool) :
    (fun metadata => ([part].map (test · metadata)).all id) = test part ∧
      (fun metadata => ([part].map (test · metadata)).any id) = test part := by
  constructor <;> (funext metadata; simp)

section Parts

variable {parts : List ι} {test : ι → Metadata → Bool} {probe : ι → Probe}

/-- The bounds of parts, as a function of the part. -/
theorem BoundsEach.choose (h : BoundsEach corpus side parts test probe) :
    ∃ info : ι → Option ProbeInfo, collect ((parts.map probe).map (·.info side)) = .ok (parts.map info) ∧
      ∀ part ∈ parts, (probe part).info side = .ok (info part) ∧
        ∀ bound, info part = some bound → ∃ found, (probe part).docs side = .ok found ∧
          Candidates corpus (test part) ((probe part).exact side) bound.count found := by
  choose! info hinfo hbound using h
  refine ⟨info, ?_, fun part hpart => ⟨hinfo part hpart, hbound part hpart⟩⟩
  rw [List.map_map]
  exact collect_map hinfo

/-- A part with a bound is listed with it. -/
theorem Probe.bounded_of_info (h : part.info side = .ok (some bound)) :
    part.bounded side = some (bound.count, part) := by
  rw [Probe.bounded, h]

/-- A listed part has the bound it is listed with. -/
theorem Probe.info_of_bounded {listed : ℕ × Probe} (h : part.bounded side = some listed) :
    ∃ bound, part.info side = .ok (some bound) ∧ listed = (bound.count, part) := by
  unfold Probe.bounded at h
  split at h
  · rename_i bound hinfo
    exact ⟨bound, hinfo, (Option.some.inj h).symm⟩
  · cases h

/-- The part with the fewest candidates bounds what passes all parts; alone, it stands for itself. -/
theorem bounds_narrowest (missing : String) (h : BoundsEach corpus side parts test probe) {exact : Prop}
    (hexact : exact → ∃ part, parts = [part] ∧ (probe part).exact side) :
    Bounds corpus (fun metadata => (parts.map (test · metadata)).all id) exact
      ((collect ((parts.map probe).map (·.info side))).map narrowest)
      (materializeNarrowest missing side (parts.map probe)) := by
  obtain ⟨info, hcollect, hinfo⟩ := h.choose
  refine ⟨narrowest (parts.map info), by rw [hcollect]; rfl, fun bound hbound => ?_⟩
  -- the bound is the bound of some part, so some part is listed
  obtain ⟨_, hin, hid⟩ := List.mem_filterMap.mp (List.argmin_mem hbound)
  obtain ⟨witness, hwitness, hwitnessInfo⟩ := List.mem_map.mp hin
  have hlist : (bound.count, probe witness) ∈ (parts.map probe).filterMap (Probe.bounded side) := by
    refine List.mem_filterMap.mpr ⟨probe witness, List.mem_map_of_mem hwitness, ?_⟩
    exact Probe.bounded_of_info (by rw [(hinfo witness hwitness).1, hwitnessInfo]; exact congrArg _ hid)
  cases hchosen : ((parts.map probe).filterMap (Probe.bounded side)).argmin Prod.fst with
  | none =>
    rw [List.argmin_eq_none] at hchosen
    rw [hchosen] at hlist
    cases hlist
  | some chosen =>
    -- the chosen part has the least count of all listed parts
    have hle : chosen.1 ≤ bound.count := List.le_of_mem_argmin hlist hchosen
    obtain ⟨part, hpart, hbounded⟩ := List.mem_filterMap.mp (List.argmin_mem hchosen)
    obtain ⟨source, hsource, rfl⟩ := List.mem_map.mp hpart
    obtain ⟨least, hleast, rfl⟩ := Probe.info_of_bounded hbounded
    obtain ⟨hsourceInfo, hsourceBound⟩ := hinfo source hsource
    rw [hsourceInfo, Except.ok.injEq] at hleast
    obtain ⟨found, hfound, hcands⟩ := hsourceBound least hleast
    refine ⟨found, ?_, (corpus.select_all_subset test hsource).trans hcands.superset, hcands.docs,
      hcands.card.trans hle, fun h => ?_⟩
    · rw [materializeNarrowest, hchosen]
      exact hfound
    · obtain ⟨part, rfl, hpartExact⟩ := hexact h
      obtain rfl := List.mem_singleton.mp hsource
      rw [hcands.equal hpartExact, (single_test source test).1]

/-- Uniting the candidates of parts, from a set on, adds what passes one of them. -/
theorem materializeUnion_candidates {info : ι → ProbeInfo} {exact : ι → Prop} (missing : String) (parts : List ι)
    (h : ∀ part ∈ parts, (probe part).info side = .ok (some (info part)) ∧
      ∃ found, (probe part).docs side = .ok found ∧ Candidates corpus (test part) (exact part) (info part).count found)
    (docs : DocSet) :
    ∃ found, materializeUnion missing side docs (parts.map probe) = .ok (docs ∪ found) ∧
      Candidates corpus (fun metadata => (parts.map (test · metadata)).any id) (∀ part ∈ parts, exact part)
        (parts.map fun part => (info part).count).sum found := by
  induction parts generalizing docs with
  | nil =>
    have hnone : (corpus.select fun metadata => (([] : List ι).map (test · metadata)).any id) = ∅ :=
      Corpus.select_any_eq_empty (by simp)
    exact ⟨∅, by simp [materializeUnion], hnone.subset, Finset.empty_subset _, by simp, fun _ => hnone.symm⟩
  | cons part rest ih =>
    obtain ⟨hinfo, found, hfound, hcands⟩ := h part List.mem_cons_self
    obtain ⟨others, hothers, hrest⟩ := ih (fun part hpart => h part (List.mem_cons_of_mem _ hpart)) (docs ∪ found)
    have hselect : (corpus.select fun metadata => ((part :: rest).map (test · metadata)).any id) =
        corpus.select (test part) ∪ corpus.select fun metadata => (rest.map (test · metadata)).any id := by
      simp only [List.map_cons, List.any_cons, id, Corpus.select_or]
    refine ⟨found ∪ others, ?_, hselect ▸ Finset.union_subset_union hcands.superset hrest.superset,
      Finset.union_subset hcands.docs hrest.docs, ?_, fun hexact => ?_⟩
    · simp only [List.map_cons, materializeUnion, hinfo, ok_bind, Option.isSome_some, ensure_of, hfound,
        ← Finset.union_assoc]
      exact hothers
    · have hunion := Finset.card_union_le found others
      have := hcands.card
      have := hrest.card
      simp only [List.map_cons, List.sum_cons]
      omega
    · rw [hselect, hcands.equal (hexact part List.mem_cons_self),
        hrest.equal fun part hpart => hexact part (List.mem_cons_of_mem _ hpart)]

/-- Bounds that are all given sum up to the bound of the union. -/
theorem summed_eq_some {info : ι → Option ProbeInfo} (h : summed (parts.map info) total = some bound) :
    ∃ given : ι → ProbeInfo, (∀ part ∈ parts, info part = some (given part)) ∧
      bound.count = min (parts.map fun part => (given part).count).sum total := by
  unfold summed at h
  split_ifs at h with hnone
  have hgiven : ∀ part ∈ parts, ∃ given, info part = some given := by
    intro part hpart
    rw [← Option.ne_none_iff_exists']
    exact fun hmiss => hnone (hmiss ▸ List.mem_map_of_mem hpart)
  choose! given hgiven using hgiven
  refine ⟨given, hgiven, ?_⟩
  have hlist : (parts.map info).filterMap id = parts.map given := by
    rw [List.filterMap_map, Function.id_comp, List.filterMap_eq_map_iff_forall_eq_some]
    exact hgiven
  rw [← Option.some.inj h, hlist, List.map_map]
  rfl

/-- The united candidates bound what passes one part, exactly if all parts do. -/
theorem bounds_union (missing : String) (h : BoundsEach corpus side parts test probe) :
    Bounds corpus (fun metadata => (parts.map (test · metadata)).any id) (∀ part ∈ parts, (probe part).exact side)
      ((collect ((parts.map probe).map (·.info side))).map (summed · corpus.allDocs.card))
      (materializeUnion missing side ∅ (parts.map probe)) := by
  obtain ⟨info, hcollect, hinfo⟩ := h.choose
  refine ⟨summed (parts.map info) corpus.allDocs.card, by rw [hcollect]; rfl, fun bound hbound => ?_⟩
  obtain ⟨given, hgiven, hcount⟩ := summed_eq_some hbound
  obtain ⟨found, hfound, hcands⟩ := materializeUnion_candidates missing parts (fun part hpart =>
    ⟨(hinfo part hpart).1.trans (by rw [hgiven part hpart]), (hinfo part hpart).2 _ (hgiven part hpart)⟩) ∅
  rw [Finset.empty_union] at hfound
  have htotal := Finset.card_le_card hcands.docs
  have hcard := hcands.card
  exact ⟨found, hfound, hcands.superset, hcands.docs, by omega, hcands.equal⟩

end Parts

/-- Results of a non-empty list may be combined by any rule that agrees on such lists. -/
theorem collect_map_congr {α β : Type} {results : List (Except CoreError α)} {f g : List α → β}
    (hne : results ≠ []) (h : ∀ values, values ≠ [] → f values = g values) :
    (collect results).map f = (collect results).map g := by
  cases hcollect : collect results with
  | error error => rfl
  | ok values =>
    have hlen := length_of_mapM hcollect
    have hvalues : values ≠ [] := by
      rintro rfl
      exact hne (List.length_eq_zero_iff.mp hlen.symm)
    exact congrArg Except.ok (h values hvalues)

/-- Negating a test changes the sides. -/
theorem ProbeSide.test_not (side : ProbeSide) (test : Metadata → Bool) :
    (side.test fun metadata => !test metadata) = side.flip.test test := by
  cases side with
  | matching => rfl
  | failing =>
    funext metadata
    exact Bool.not_not _

/-- A conjunction fails where one of its parts fails. -/
theorem ProbeSide.failing_test_all (parts : List ι) (test : ι → Metadata → Bool) :
    (ProbeSide.failing.test fun metadata => (parts.map (test · metadata)).all id) =
      fun metadata => (parts.map fun part => !test part metadata).any id := by
  funext metadata
  simp only [ProbeSide.test, List.all_map, List.any_map, List.not_all_eq_any_not]
  rfl

/-- A disjunction fails where all of its parts fail. -/
theorem ProbeSide.failing_test_any (parts : List ι) (test : ι → Metadata → Bool) :
    (ProbeSide.failing.test fun metadata => (parts.map (test · metadata)).any id) =
      fun metadata => (parts.map fun part => !test part metadata).all id := by
  funext metadata
  simp only [ProbeSide.test, List.all_map, List.any_map, List.not_any_eq_all_not]
  rfl

/-- The probe of a negation keeps its promises. -/
theorem ProbeSound.not {probe : Probe} (h : ProbeSound corpus test probe) :
    ProbeSound corpus (fun metadata => !test metadata) (probeNot probe) where
  decided := ⟨false, rfl⟩
  bounds side := by
    rw [ProbeSide.test_not]
    exact (h.bounds side.flip).weaken fun hexact => by cases side <;> simp [Probe.exact, probeNot] at hexact

/-- The bounds of a conjunction, on the matching side. -/
theorem probeAnd_matching (name : String) (hne : parts ≠ []) :
    (probeAnd name total parts).info .matching = (collect (parts.map (·.info .matching))).map narrowest :=
  collect_map_congr (by simpa using hne) fun values hvalues => by simp [combineAndProbes, hvalues]

/-- The bounds of a conjunction, on the failing side. -/
theorem probeAnd_failing (name : String) (hne : parts ≠ []) :
    (probeAnd name total parts).info .failing = (collect (parts.map (·.info .failing))).map (summed · total) :=
  collect_map_congr (by simpa using hne) fun values hvalues => by simp [combineAndProbes, hvalues]

/-- The bounds of a disjunction, on the matching side. -/
theorem probeOr_matching (hne : parts ≠ []) :
    (probeOr name total parts).info .matching = (collect (parts.map (·.info .matching))).map (summed · total) :=
  collect_map_congr (by simpa using hne) fun values hvalues => by simp [combineOrProbes, hvalues]

/-- The bounds of a disjunction, on the failing side. -/
theorem probeOr_failing (hne : parts ≠ []) :
    (probeOr name total parts).info .failing = (collect (parts.map (·.info .failing))).map narrowest :=
  collect_map_congr (by simpa using hne) fun values hvalues => by simp [combineOrProbes, hvalues]

/-- A flag that single parts hand on and several turn off is decided, and on only for a single part. -/
theorem flag_single {parts : List ι} {probe : ι → Probe} (hne : parts ≠ []) (flag : List Probe → Except CoreError Bool)
    {part : Probe → Except CoreError Bool} (hsingle : ∀ probe, flag [probe] = part probe)
    (hseveral : ∀ first second rest, flag (first :: second :: rest) = .ok false)
    (hdec : ∀ source ∈ parts, ∃ exact, part (probe source) = .ok exact) :
    (∃ exact, flag (parts.map probe) = .ok exact) ∧
      (flag (parts.map probe) = .ok true → ∃ source, parts = [source] ∧ part (probe source) = .ok true) := by
  match parts with
  | [] => exact absurd rfl hne
  | [source] =>
    rw [List.map_singleton, hsingle]
    exact ⟨hdec source List.mem_cons_self, fun h => ⟨source, rfl, h⟩⟩
  | first :: second :: rest =>
    rw [List.map_cons, List.map_cons, hseveral]
    exact ⟨⟨false, rfl⟩, by simp⟩

/-- The probe of a conjunction keeps its promises, if only a single part makes its matching side exact. -/
theorem combines_and {name : String} (exact : List Probe → Except CoreError Bool)
    (hsingle : ∀ part, exact [part] = part.matchingExact)
    (hseveral : ∀ first second rest, exact (first :: second :: rest) = .ok false) :
    Combines (ProbeSound corpus) (List.all · id) fun parts =>
      { probeAnd name corpus.allDocs.card parts with matchingExact := exact parts } := by
  intro ι parts test probe hne h
  have hmapped : parts.map probe ≠ [] := by simpa using hne
  obtain ⟨hdec, honly⟩ := flag_single hne exact hsingle hseveral fun part hpart => (h part hpart).decided
  refine ⟨hdec, fun side => ?_⟩
  cases side with
  | matching =>
    refine probeAnd_matching name hmapped ▸ ?_
    exact bounds_narrowest _ (fun part hpart => (h part hpart).bounds .matching) honly
  | failing =>
    refine probeAnd_failing name hmapped ▸ ProbeSide.failing_test_all parts test ▸ ?_
    refine (bounds_union _ fun part hpart => (h part hpart).bounds .failing).weaken fun hexact => ?_
    simpa [Probe.exact, probeAnd] using hexact

/-- The probe of a disjunction keeps its promises. -/
theorem combines_probeOr (name : String) :
    Combines (ProbeSound corpus) (List.any · id) (probeOr name corpus.allDocs.card) := by
  intro ι parts test probe hne h
  have hmapped : parts.map probe ≠ [] := by simpa using hne
  obtain ⟨hdec, honly⟩ := flag_single hne (fun parts => (probeOr name corpus.allDocs.card parts).matchingExact)
    (fun part => (rfl : _ = part.matchingExact)) (fun _ _ _ => rfl) fun part hpart => (h part hpart).decided
  refine ⟨hdec, fun side => ?_⟩
  cases side with
  | matching =>
    rw [probeOr_matching hmapped]
    refine (bounds_union _ fun part hpart => (h part hpart).bounds .matching).weaken fun hexact => ?_
    obtain ⟨part, rfl, hpart⟩ := honly hexact
    simpa [Probe.exact] using hpart
  | failing =>
    rw [probeOr_failing hmapped, ProbeSide.failing_test_any]
    refine bounds_narrowest _ (fun part hpart => (h part hpart).bounds .failing) fun hexact => ?_
    match parts with
    | [part] => exact ⟨part, rfl, hexact⟩
    | first :: second :: rest => simp [Probe.exact, probeOr] at hexact

/-- The probe of an operator map keeps its promises. -/
theorem combines_operatorsProbe : Combines (ProbeSound corpus) (List.all · id) (operatorsProbe corpus.allDocs.card) :=
  combines_and (fun parts => (operatorsProbe corpus.allDocs.card parts).matchingExact) (fun _ => rfl) fun _ _ _ => rfl

/-- The probe of a conjunction keeps its promises. -/
theorem combines_probeAnd (name : String) :
    Combines (ProbeSound corpus) (List.all · id) (probeAnd name corpus.allDocs.card) :=
  combines_and (fun parts => (probeAnd name corpus.allDocs.card parts).matchingExact) (fun _ => rfl) fun _ _ _ => rfl

/-- A posting bounds both sides of its test: all of its documents match, and the failing side is known only if
nothing fails. -/
theorem posting_bounds {docs : DocSet} (hdocs : docs = corpus.select test)
    (error : CoreError) (side : ProbeSide) :
    Bounds corpus (side.test test) True (.ok (postingProbe docs.card corpus.allDocs.card side))
      (okOr (postingDocs docs corpus.allDocs.card side) error) := by
  subst hdocs
  cases side with
  | matching =>
    refine ⟨_, rfl, fun bound hbound => ⟨_, rfl, Finset.Subset.refl _, corpus.select_subset _, ?_, fun _ => rfl⟩⟩
    rw [← Option.some.inj hbound]
  | failing =>
    by_cases hall : (corpus.select test).card = corpus.allDocs.card
    · have hnone : corpus.select (ProbeSide.failing.test test) = ∅ := by
        rw [ProbeSide.test, Corpus.select_not, Corpus.select_eq_allDocs hall, Finset.sdiff_self]
      simp only [postingProbe, postingDocs, hall, ↓reduceIte, okOr_some]
      exact ⟨_, rfl, fun bound hbound =>
        ⟨∅, rfl, hnone.subset, Finset.empty_subset _, by simp, fun _ => hnone.symm⟩⟩
    · simp only [postingProbe, hall, ↓reduceIte]
      exact ⟨none, rfl, by simp⟩

/-- On a reflecting index the probe of an operator bounds both of its sides exactly. -/
theorem Reflects.operatorProbe_bounds (asNumber : String → Option N) {field : String} {index : FieldIndex}
    (h : Reflects corpus field index) {entry : String × Value} {operator : Operator}
    (hop : Denotes entry operator) (side : ProbeSide) :
    Bounds corpus (side.test fun metadata => operator.accepts asNumber metadata[field]?) True
      ((operatorProbe asNumber index corpus.allDocs.card entry).info side)
      ((operatorProbe asNumber index corpus.allDocs.card entry).docs side) := by
  simp only [operatorProbe, probeOperator, materializeOperatorProbe, hop.read_planner, ok_bind, Except.map]
  cases operator with
  | eq value =>
    have hdocs : ((materializeEq index value side corpus.allDocs.card).map some >>= fun found =>
        okOr found (disappeared side)) = materializeEq index value side corpus.allDocs.card := by
      cases materializeEq index value side corpus.allDocs.card <;> rfl
    simp only [Except.map] at hdocs
    rw [hdocs]
    exact posting_bounds (h.posting value) _ side
  | ne value =>
    simp only [Operator.accepts, ProbeSide.test_not]
    exact posting_bounds (h.posting value) _ side.flip
  | isIn values => exact posting_bounds (h.unionPostings_eq values) _ side
  | notIn values =>
    simp only [Operator.accepts, ProbeSide.test_not]
    exact posting_bounds (h.unionPostings_eq values) _ side.flip
  | «exists» flag =>
    cases flag with
    | true =>
      simp only [Operator.accepts, beq_true]
      exact posting_bounds h.docs _ side
    | false =>
      simp only [Operator.accepts, beq_false, ProbeSide.test_not]
      exact posting_bounds h.docs _ side.flip
  | ordered op operand =>
    have hcount : countOrdered asNumber index op operand = (resolveOrdered asNumber index op operand).card :=
      h.countOrdered_eq op operand
    simp only [hcount]
    exact posting_bounds (h.resolveOrdered_eq op operand) _ side

/-- Probing a validated filter keeps every promise. -/
theorem probing_keeps (asNumber : String → Option N) {fields : FieldIndexes} (h : Indexes corpus fields) :
    (probing asNumber fields corpus.allDocs.card).Keeps asNumber (ProbeSound corpus) where
  node := combines_probeAnd "$and"
  conj := combines_probeAnd "$and"
  disj := combines_probeOr "$or"
  neg _ _ hr := hr.not
  field name spec hname hspec := by
    refine sound_readFieldSpec hname hspec combines_operatorsProbe ?_ ?_
    · intro expected
      exact ⟨⟨true, rfl⟩, fun side => (posting_bounds ((h name).posting expected) _ side).weaken fun _ => trivial⟩
    · intro entry operator hop
      have hbounds := fun side => (h name).operatorProbe_bounds asNumber hop side
      obtain ⟨info, hinfo, _⟩ := hbounds .matching
      refine ⟨⟨info.isSome, ?_⟩, fun side => (hbounds side).weaken fun _ => trivial⟩
      have hprobe : probeOperator asNumber (fields.index name) .matching corpus.allDocs.card entry = .ok info := hinfo
      simp only [operatorProbe, hprobe]
      rfl

end LodeDB.Filter
