import InspectionFormula.Path.Basic

/-!
# Sets of paths

A set lists its paths in order, each once, so that sets with the same members
are equal.
-/

namespace InspectionFormula

def RisingPaths (paths : List Path) : Prop :=
  paths.Pairwise fun earlier later => compare earlier later = .lt

theorem risingPaths_nil : RisingPaths [] := .nil

structure PathSet where
  paths : List Path
  rising : RisingPaths paths
deriving DecidableEq

namespace PathSet

def empty : PathSet := ⟨[], risingPaths_nil⟩

def insertIn (path : Path) : List Path → List Path
  | [] => [path]
  | first :: rest =>
      match compare path first with
      | .lt => path :: first :: rest
      | .eq => first :: rest
      | .gt => first :: insertIn path rest

theorem mem_insertIn {path other : Path} {paths : List Path} :
    other ∈ insertIn path paths ↔ other = path ∨ other ∈ paths := by
  induction paths with
  | nil => simp [insertIn]
  | cons first rest ih =>
      simp only [insertIn]
      split
      · simp
      · next same =>
        have := Std.LawfulEqOrd.eq_of_compare same
        simp [this]
      · simp only [List.mem_cons, ih]
        exact or_left_comm

theorem rising_insertIn (path : Path) {paths : List Path} (rising : RisingPaths paths) :
    RisingPaths (insertIn path paths) := by
  induction paths with
  | nil => exact List.pairwise_singleton _ _
  | cons first rest ih =>
      obtain ⟨below, above⟩ := List.pairwise_cons.1 rising
      simp only [insertIn]
      split
      · next before =>
        refine List.pairwise_cons.2 ⟨?_, rising⟩
        intro other member
        rcases List.mem_cons.1 member with rfl | later
        · exact before
        · exact Std.TransCmp.lt_trans before (below other later)
      · exact rising
      · next after =>
        refine List.pairwise_cons.2 ⟨?_, ih above⟩
        intro other member
        rcases mem_insertIn.1 member with rfl | later
        · exact Std.OrientedCmp.lt_of_gt after
        · exact below other later

def insert (set : PathSet) (path : Path) : PathSet :=
  ⟨insertIn path set.paths, rising_insertIn path set.rising⟩

@[simp] theorem mem_paths_insert {set : PathSet} {path other : Path} :
    other ∈ (set.insert path).paths ↔ other = path ∨ other ∈ set.paths :=
  mem_insertIn

private theorem eq_of_rising {left right : List Path} (leftRises : RisingPaths left)
    (rightRises : RisingPaths right) (same : ∀ path, path ∈ left ↔ path ∈ right) :
    left = right := by
  have irrefl : ∀ path : Path, compare path path ≠ .lt := by
    simp [Std.ReflOrd.compare_self]
  induction left generalizing right with
  | nil =>
      cases right with
      | nil => rfl
      | cons first rest => exact absurd ((same first).2 List.mem_cons_self) List.not_mem_nil
  | cons first rest ih =>
      cases right with
      | nil => exact absurd ((same first).1 List.mem_cons_self) List.not_mem_nil
      | cons other others =>
          obtain ⟨firstBelow, restRises⟩ := List.pairwise_cons.1 leftRises
          obtain ⟨otherBelow, othersRise⟩ := List.pairwise_cons.1 rightRises
          have heads : first = other := by
            rcases List.mem_cons.1 ((same first).1 List.mem_cons_self) with equal | later
            · exact equal
            · rcases List.mem_cons.1 ((same other).2 List.mem_cons_self) with equal | earlier
              · exact equal.symm
              · have below := firstBelow other earlier
                exact absurd (Std.TransCmp.lt_trans below (otherBelow first later)) (irrefl first)
          subst heads
          rw [ih restRises othersRise]
          intro path
          constructor
          · intro member
            rcases List.mem_cons.1 ((same path).1 (List.mem_cons_of_mem _ member)) with rfl | found
            · exact absurd (firstBelow path member) (irrefl path)
            · exact found
          · intro member
            rcases List.mem_cons.1 ((same path).2 (List.mem_cons_of_mem _ member)) with rfl | found
            · exact absurd (otherBelow path member) (irrefl path)
            · exact found

/-- Sets with the same members are equal. -/
theorem eq_of_mem_iff {left right : PathSet}
    (same : ∀ path, path ∈ left.paths ↔ path ∈ right.paths) : left = right := by
  obtain ⟨leftPaths, leftRises⟩ := left
  obtain ⟨rightPaths, rightRises⟩ := right
  congr
  exact eq_of_rising leftRises rightRises same

end PathSet

end InspectionFormula
