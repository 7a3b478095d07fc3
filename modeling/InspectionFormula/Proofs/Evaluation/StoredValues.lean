import InspectionFormula.Proofs.Evaluation.EntryPoints
import InspectionFormula.Proofs.Evaluation.Locality

/-!
# Stored values

A calculated value may be stored as if it had been measured, and the formula
dropped.  Without the formula there are fewer ways to a cycle, so a place that
led to one may get a value that it did not have.  A place that leads to none
keeps its value, whatever is stored below it.
-/

namespace InspectionFormula

namespace Inspection

variable {here there : Inspection} {stored : Path → Prop} {path : Path} {text : String}

/-- Some places have no formula there.  They are measured instead, and the values are those that
references to them have here. -/
structure Stores (here there : Inspection) (stored : Path → Prop) : Prop where
  agree : here.Agree there (fun path => ¬ stored path) fun _ _ => True
  formula? : ∀ path, stored path → there.plan.formula? path = none
  value? : ∀ path, stored path → there.measurements.value? path = here.valueOf ⟨path, none⟩

/-- The inspection in which a place has its value stored in place of its formula. -/
def storing (inspection : Inspection) (place : Path) : Inspection where
  dialect := inspection.dialect
  plan := {
    childPaths := inspection.plan.childPaths
    formula? := fun path => if path = place then none else inspection.plan.formula? path
    formulaPaths := inspection.plan.formulaPaths
    mem_formulaPaths := by
      intro path text known
      split at known
      · cases known
      · exact inspection.plan.mem_formulaPaths known }
  measurements := {
    value? := fun path =>
      if path = place then inspection.valueOf ⟨place, none⟩ else inspection.measurements.value? path
    attribute? := inspection.measurements.attribute? }
  time := inspection.time

theorem stores_storing (inspection : Inspection) (place : Path) :
    inspection.Stores (inspection.storing place) (fun path => path = place) where
  agree := {
    dialect := rfl
    time := rfl
    childPaths := rfl
    formula? := fun _ different => if_neg different
    value? := fun _ different => if_neg different
    attribute? := fun _ _ _ => rfl }
  formula? _ same := if_pos same
  value? path same := by
    subst same
    exact if_pos rfl

section Stores

variable (stores : here.Stores there stored)
include stores

theorem Stores.formula?_eq (known : there.plan.formula? path = some text) :
    here.plan.formula? path = some text := by
  by_cases isStored : stored path
  · rw [stores.formula? path isStored] at known
    cases known
  · rwa [← stores.agree.formula? path isStored]

theorem Stores.not_reachesCycle (acyclic : ¬ here.dialect.ReachesCycle here.plan path) :
    ¬ there.dialect.ReachesCycle there.plan path := by
  rw [stores.agree.dialect]
  intro reachesCycle
  exact acyclic (Dialect.reachesCycle_of_fewer stores.agree.childPaths
    (fun _ _ => stores.formula?_eq) reachesCycle)

theorem Stores.readNested_eq (acyclic : ¬ here.dialect.ReachesCycle here.plan path)
    (known : here.plan.formula? path = some text) :
    there.readNested path text = here.readNested path text := by
  apply readNested_eq_of_check stores.agree.dialect
  intro nested read
  have passes : here.dialect.checkAcyclic here.plan nested = .ok () := by
    rw [Dialect.checkAcyclic_eq_checkPlace ⟨text, known, read⟩]
    exact Dialect.checkPlace_eq_ok_iff.2 acyclic
  rw [passes]
  exact Dialect.checkAcyclic_of_fewer stores.agree.childPaths (fun _ _ => stores.formula?_eq) passes

variable (honest : here.dialect.catalog.IsHonest)
include honest

/-- A place that keeps its formula and leads to no cycle comes to the same if the places do whose
values its formula reads. -/
theorem Stores.resolve_eq_of_values (kept : ¬ stored path)
    (acyclic : ¬ here.dialect.ReachesCycle here.plan path)
    (values : ∀ text nested next, here.plan.formula? path = some text →
      here.readNested path text = .ok nested →
      nested.root.Reads here.surroundings ⟨next, none⟩ →
      there.valueOf ⟨next, none⟩ = here.valueOf ⟨next, none⟩) :
    there.resolve ⟨path, none⟩ = here.resolve ⟨path, none⟩ := by
  refine resolve_eq_of_nested honest stores.agree.dialect (stores.agree.formula? path kept)
    (stores.agree.value? path kept) (fun _ => stores.readNested_eq acyclic) ?_
  intro text nested known opened
  exact stores.agree.evaluateTree_congr (fun next => values text nested next known opened)
    fun _ _ _ => trivial

/-- A place that is stored or leads to no cycle keeps its value. -/
theorem Stores.valueOf_eq (acyclic : ¬ stored path → ¬ here.dialect.ReachesCycle here.plan path) :
    there.valueOf ⟨path, none⟩ = here.valueOf ⟨path, none⟩ := by
  induction path using opened_induction honest with
  | step path ih =>
      by_cases isStored : stored path
      -- A stored place may lead to a cycle, but what its formula read is no longer asked for.
      · rw [valueOf, resolve_measured (stores.formula? path isStored)]
        exact stores.value? path isStored
      · refine congrArg valueOrNone
          (stores.resolve_eq_of_values honest isStored (acyclic isStored) ?_)
        intro text nested next known opened reads
        obtain ⟨edge, -⟩ := valueEdge_of_reads honest known opened rfl reads
        exact ih text nested next known opened reads fun _ reachesCycle =>
          acyclic isStored (reachesCycle.of_reaches (.single edge))

theorem Stores.resolve_eq (kept : ¬ stored path)
    (acyclic : ¬ here.dialect.ReachesCycle here.plan path) :
    there.resolve ⟨path, none⟩ = here.resolve ⟨path, none⟩ := by
  apply stores.resolve_eq_of_values honest kept acyclic
  intro text nested next known opened reads
  obtain ⟨edge, -⟩ := valueEdge_of_reads honest known opened rfl reads
  exact stores.valueOf_eq honest fun _ reachesCycle =>
    acyclic (reachesCycle.of_reaches (.single edge))

theorem Stores.evaluateAt_eq (kept : ¬ stored path)
    (acyclic : ¬ here.dialect.ReachesCycle here.plan path) :
    there.evaluateAt path = here.evaluateAt path := by
  have honestThere : there.dialect.catalog.IsHonest := stores.agree.dialect ▸ honest
  rw [evaluateAt_eq_resolve honest acyclic,
    evaluateAt_eq_resolve honestThere (stores.not_reachesCycle acyclic),
    stores.resolve_eq honest kept acyclic]

end Stores

/-- Storing one place after the other, each with the value that it has then, leaves the values of
all places that lead to no cycle. -/
theorem valueOf_foldl_storing {inspection : Inspection}
    (honest : inspection.dialect.catalog.IsHonest) (places : List Path)
    (acyclic : ¬ inspection.dialect.ReachesCycle inspection.plan path) :
    (places.foldl storing inspection).valueOf ⟨path, none⟩ = inspection.valueOf ⟨path, none⟩ := by
  induction places generalizing inspection with
  | nil => rfl
  | cons place rest ih =>
      have stores := inspection.stores_storing place
      have honestThere : (inspection.storing place).dialect.catalog.IsHonest := honest
      rw [List.foldl_cons, ih honestThere (stores.not_reachesCycle acyclic)]
      exact stores.valueOf_eq honest fun _ => acyclic

theorem evaluateAt_foldl_storing {inspection : Inspection}
    (honest : inspection.dialect.catalog.IsHonest) {places : List Path} (others : path ∉ places)
    (acyclic : ¬ inspection.dialect.ReachesCycle inspection.plan path) :
    (places.foldl storing inspection).evaluateAt path = inspection.evaluateAt path := by
  induction places generalizing inspection with
  | nil => rfl
  | cons place rest ih =>
      obtain ⟨different, others⟩ := not_or.1 (mt List.mem_cons.2 others)
      have stores := inspection.stores_storing place
      have honestThere : (inspection.storing place).dialect.catalog.IsHonest := honest
      rw [List.foldl_cons, ih honestThere others (stores.not_reachesCycle acyclic)]
      exact stores.evaluateAt_eq honest different acyclic

/-- On a place that leads to no cycle, the values of other places may be stored in place of their
formulas: of one, of any number one after the other, and of all places of some kind at once.  The
places that the formula reaches keep their values too. -/
theorem evaluateAt_of_stored_values (inspection : Inspection)
    (standard : inspection.dialect.catalog = .standard) {path : Path}
    (passes : inspection.dialect.checkPlace inspection.plan path = .ok ()) :
    (∀ place, place ≠ path →
      (inspection.storing place).evaluateAt path = inspection.evaluateAt path) ∧
    (∀ places : List Path, path ∉ places →
      (places.foldl storing inspection).evaluateAt path = inspection.evaluateAt path ∧
        ∀ place, inspection.dialect.Reaches inspection.plan path place →
          (places.foldl storing inspection).valueOf ⟨place, none⟩ =
            inspection.valueOf ⟨place, none⟩) ∧
    ∀ there stored, inspection.Stores there stored → ¬ stored path →
      there.evaluateAt path = inspection.evaluateAt path := by
  have honest : inspection.dialect.catalog.IsHonest := by
    rw [standard]
    exact Catalog.isHonest_standard
  have acyclic := Dialect.checkPlace_eq_ok_iff.1 passes
  refine ⟨?_, ?_, ?_⟩
  · intro place different
    exact (inspection.stores_storing place).evaluateAt_eq honest different.symm acyclic
  · intro places others
    refine ⟨evaluateAt_foldl_storing honest others acyclic, ?_⟩
    intro place reaches
    exact valueOf_foldl_storing honest places fun reachesCycle =>
      acyclic (reachesCycle.of_reaches reaches)
  · intro there stored stores kept
    exact stores.evaluateAt_eq honest kept acyclic

theorem evaluateAt_of_stored_maximum :
    ∃ (inspection : Inspection) (path inner outer : Path),
      inspection.dialect.catalog = .standard ∧
      inspection.dialect.checkPlace inspection.plan path = .ok () ∧
      inspection.plan.formula? inner = some "\x7bM\x7d*2" ∧
      inspection.plan.formula? outer = some "max(\x7bQ\x7d;1)" ∧
      inspection.evaluateAt path = .ok (some (Binary64.ofNat 12)) ∧
      (inspection.storing inner).measurements.value? inner = some (Binary64.ofNat 6) ∧
      (inspection.storing inner).evaluateAt path = inspection.evaluateAt path ∧
      ([outer, inner].foldl storing inspection).evaluateAt path = inspection.evaluateAt path ∧
      ([inner, outer].foldl storing inspection).evaluateAt path = inspection.evaluateAt path ∧
      inspection.Stores (inspection.storing outer) (fun place => place = outer) ∧
      (inspection.storing outer).evaluateAt path = inspection.evaluateAt path := by
  let path : Path := ⟨[⟨.characteristic, "P"⟩]⟩
  let inner : Path := ⟨[⟨.characteristic, "Q"⟩]⟩
  let outer : Path := ⟨[⟨.characteristic, "R"⟩]⟩
  let measured : Path := ⟨[⟨.characteristic, "M"⟩]⟩
  let store := (((Store.empty.setFormula path "\x7bQ\x7d+\x7bR\x7d").setFormula inner
    "\x7bM\x7d*2").setFormula outer "max(\x7bQ\x7d;1)").setValue measured (Binary64.ofNat 3)
  let inspection : Inspection := ⟨.standard, store.plan, store.measurements, none⟩
  have passes : inspection.dialect.checkPlace inspection.plan path = .ok () := by decide +kernel
  have ofInner : inspection.plan.formula? inner = some "\x7bM\x7d*2" := by decide +kernel
  have ofOuter : inspection.plan.formula? outer = some "max(\x7bQ\x7d;1)" := by decide +kernel
  have result : inspection.evaluateAt path = .ok (some (Binary64.ofNat 12)) := by decide +kernel
  have value : inspection.valueOf ⟨inner, none⟩ = some (Binary64.ofNat 6) := by decide +kernel
  have stores := inspection.stores_storing outer
  obtain ⟨one, several, any⟩ := evaluateAt_of_stored_values inspection rfl passes
  exact ⟨inspection, path, inner, outer, rfl, passes, ofInner, ofOuter, result,
    ((inspection.stores_storing inner).value? inner rfl).trans value, one inner (by decide),
    (several [outer, inner] (by decide)).1, (several [inner, outer] (by decide)).1, stores,
    any _ _ stores (by decide)⟩

end Inspection

end InspectionFormula
