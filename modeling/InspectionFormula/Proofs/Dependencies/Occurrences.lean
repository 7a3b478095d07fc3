import InspectionFormula.Proofs.Dependencies.ValueEdge

/-!
# Occurrences and dependencies

A formula depends on the value of a place exactly if one of its occurrences
refers to that value.
-/

namespace InspectionFormula

namespace Dependencies

variable {occurrence other : Occurrence}

theorem mem_flatMap_insertIn {entries : List (Path × List Occurrence)} :
    other ∈ (insertIn occurrence entries).flatMap Prod.snd ↔
      other = occurrence ∨ other ∈ entries.flatMap Prod.snd := by
  induction entries with
  | nil => simp [insertIn]
  | cons entry rest ih =>
      obtain ⟨path, earlier⟩ := entry
      rw [insertIn]
      split
      · simp
      · simp only [List.flatMap_cons, List.mem_append, List.mem_singleton]
        tauto
      · simp only [List.flatMap_cons, List.mem_append, ih]
        tauto

theorem mem_flatMap_foldl_insert {occurrences : List Occurrence} {dependencies : Dependencies} :
    other ∈ (occurrences.foldl insert dependencies).entries.flatMap Prod.snd ↔
      other ∈ dependencies.entries.flatMap Prod.snd ∨ other ∈ occurrences := by
  induction occurrences generalizing dependencies with
  | nil => simp
  | cons first rest ih =>
      rw [List.foldl_cons, ih, insert, mem_flatMap_insertIn, List.mem_cons]
      tauto

theorem mem_flatMap_ofOccurrences {occurrences : List Occurrence} :
    other ∈ (ofOccurrences occurrences).entries.flatMap Prod.snd ↔ other ∈ occurrences := by
  rw [ofOccurrences, mem_flatMap_foldl_insert]
  simp [empty]

theorem mem_links_iff_exists_occurrence {dependencies : Dependencies} {path : Path} :
    ⟨path, false⟩ ∈ dependencies.links ↔
      ∃ occurrence ∈ dependencies.entries.flatMap Prod.snd,
        occurrence.reference = ⟨path, none⟩ := by
  constructor
  · intro member
    obtain ⟨entry, isEntry, equal⟩ := List.mem_map.1 member
    obtain ⟨rfl, values⟩ := DependencyLink.mk.inj equal
    obtain ⟨occurrence, occurs, noKey⟩ := List.all_eq_false.1 values
    refine ⟨occurrence, List.mem_flatMap.2 ⟨entry, isEntry, occurs⟩, ?_⟩
    have samePath := (dependencies.occurring entry isEntry).2 occurrence occurs
    have noKey : occurrence.reference.key = none := by simpa using noKey
    rw [← samePath, ← noKey]
    rfl
  · rintro ⟨occurrence, member, refers⟩
    obtain ⟨entry, isEntry, occurs⟩ := List.mem_flatMap.1 member
    have samePath := (dependencies.occurring entry isEntry).2 occurrence occurs
    rw [Occurrence.path, refers] at samePath
    refine List.mem_map.2 ⟨entry, isEntry, ?_⟩
    rw [← samePath, readAttributes, List.all_eq_false.2 ⟨occurrence, occurs, by simp [refers]⟩]

theorem mem_occurrences_iff {dependencies : Dependencies} {path : Path} :
    occurrence ∈ dependencies.occurrences path ↔
      occurrence ∈ dependencies.entries.flatMap Prod.snd ∧ occurrence.path = path := by
  constructor
  · intro member
    unfold occurrences at member
    cases found : dependencies.entries.find? fun entry => entry.1 = path with
    | none =>
        rw [found] at member
        cases member
    | some entry =>
        rw [found] at member
        have isEntry := List.mem_of_find?_eq_some found
        have here : entry.1 = path := by simpa using List.find?_some found
        exact ⟨List.mem_flatMap.2 ⟨entry, isEntry, member⟩,
          ((dependencies.occurring entry isEntry).2 occurrence member).trans here⟩
  · rintro ⟨member, rfl⟩
    obtain ⟨entry, isEntry, occurs⟩ := List.mem_flatMap.1 member
    rw [(dependencies.occurring entry isEntry).2 occurrence occurs, occurrences_of_mem isEntry]
    exact occurs

theorem contains_iff_exists_mem_occurrences {dependencies : Dependencies} {path : Path} :
    dependencies.contains path = true ↔
      ∃ occurrence, occurrence ∈ dependencies.occurrences path := by
  rw [contains, List.contains_iff_mem]
  constructor
  · intro member
    obtain ⟨entry, isEntry, rfl⟩ := List.mem_map.1 member
    rw [occurrences_of_mem isEntry]
    exact List.exists_mem_of_ne_nil _ (dependencies.occurring entry isEntry).1
  · rintro ⟨occurrence, member⟩
    obtain ⟨occurs, rfl⟩ := mem_occurrences_iff.1 member
    obtain ⟨entry, isEntry, occurs⟩ := List.mem_flatMap.1 occurs
    exact List.mem_map.2
      ⟨entry, isEntry, ((dependencies.occurring entry isEntry).2 occurrence occurs).symm⟩

end Dependencies

namespace Formula

variable {formula : Formula} {plan : Plan} {path : Path} {reference : Reference}

/-- The reference is one of the occurrences of its path among the dependencies. -/
def Mentions (formula : Formula) (plan : Plan) (reference : Reference) : Prop :=
  ∃ occurrence ∈ (formula.dependencies plan.childPaths).occurrences reference.path,
    occurrence.reference = reference

theorem mentions_iff : formula.Mentions plan reference ↔
    ∃ occurrence ∈ formula.root.occurrences plan.childPaths formula.text,
      occurrence.reference = reference := by
  simp only [Mentions, dependencies, Dependencies.mem_occurrences_iff,
    Dependencies.mem_flatMap_ofOccurrences]
  constructor
  · rintro ⟨occurrence, ⟨occurs, -⟩, refers⟩
    exact ⟨occurrence, occurs, refers⟩
  · rintro ⟨occurrence, occurs, refers⟩
    exact ⟨occurrence, ⟨occurs, congrArg Reference.path refers⟩, refers⟩

theorem contains_iff_mentions : (formula.dependencies plan.childPaths).contains path = true ↔
    ∃ key, formula.Mentions plan ⟨path, key⟩ := by
  rw [Dependencies.contains_iff_exists_mem_occurrences]
  constructor
  · rintro ⟨occurrence, member⟩
    obtain ⟨-, rfl⟩ := Dependencies.mem_occurrences_iff.1 member
    exact ⟨occurrence.reference.key, occurrence, member, rfl⟩
  · rintro ⟨key, occurrence, member, -⟩
    exact ⟨occurrence, member⟩

end Formula

theorem Formula.dependsOnValue_iff {formula : Formula} {plan : Plan} {path : Path} :
    formula.DependsOnValue plan path ↔
      ∃ occurrence ∈ formula.root.occurrences plan.childPaths formula.text,
        occurrence.reference = ⟨path, none⟩ := by
  rw [DependsOnValue, ← Dependencies.mem_links_iff, Dependencies.mem_links_iff_exists_occurrence]
  simp only [dependencies, Dependencies.mem_flatMap_ofOccurrences]

theorem Formula.dependsOnValue_iff_mentions {formula : Formula} {plan : Plan} {path : Path} :
    formula.DependsOnValue plan path ↔ formula.Mentions plan ⟨path, none⟩ := by
  rw [dependsOnValue_iff, mentions_iff]

end InspectionFormula
