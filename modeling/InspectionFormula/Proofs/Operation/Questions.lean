import InspectionFormula.Proofs.Catalog.Lookup

/-!
# What operations ask

A computation depends on the answers to its questions only.  The operations of
the standard catalog either ask for their arguments or for places that they say
they read, and never for both.
-/

namespace InspectionFormula

inductive Question where
  | argument (index : Nat)
  | value (path : Path)

def Question.IsAmong (arguments : Prop) (places : Path → Prop) : Question → Prop
  | argument _ => arguments
  | value path => places path

namespace Computation

variable {First Result : Type} {answers other : Answers} {computation : Computation Result}

/-- The questions that a computation comes to when it is given some answers. -/
inductive Asks (answers : Answers) : Computation Result → Question → Prop where
  | argument {index : Nat} {next : Option Binary64 → Computation Result} :
      Asks answers (.argument index next) (.argument index)
  | value {path : Path} {next : Option Binary64 → Computation Result} :
      Asks answers (.valueOf path next) (.value path)
  | afterArgument {index : Nat} {next : Option Binary64 → Computation Result}
      {value : Option Binary64} {question : Question}
      (answered : answers.argument index = .ok value) (later : Asks answers (next value) question) :
      Asks answers (.argument index next) question
  | afterValue {path : Path} {next : Option Binary64 → Computation Result} {question : Question}
      (later : Asks answers (next (answers.valueOf path)) question) :
      Asks answers (.valueOf path next) question
  | afterChildren {path : Path} {next : List Path → Computation Result} {question : Question}
      (later : Asks answers (next (answers.childPaths path)) question) :
      Asks answers (.childPaths path next) question

theorem run_congr (sameChildren : other.childPaths = answers.childPaths)
    (sameArguments : ∀ index, Asks answers computation (.argument index) →
      other.argument index = answers.argument index)
    (sameValues : ∀ path, Asks answers computation (.value path) →
      other.valueOf path = answers.valueOf path) :
    computation.run other = computation.run answers := by
  induction computation with
  | done result => rfl
  | fail error => rfl
  | argument index next ih =>
      rw [run, run, sameArguments index .argument]
      cases answered : answers.argument index with
      | error error => rfl
      | ok value =>
          exact ih value (fun index asks => sameArguments index (.afterArgument answered asks))
            fun path asks => sameValues path (.afterArgument answered asks)
  | valueOf path next ih =>
      rw [run, run, sameValues path .value]
      exact ih _ (fun index asks => sameArguments index (.afterValue asks))
        fun path asks => sameValues path (.afterValue asks)
  | childPaths path next ih =>
      rw [run, run, sameChildren]
      exact ih _ (fun index asks => sameArguments index (.afterChildren asks))
        fun path asks => sameValues path (.afterChildren asks)

/-- Whatever the answers, a computation asks for no other places, and for arguments only if it may.
-/
def KeepsTo (children : Path → List Path) (mayAskArguments : Prop) (places : Path → Prop) :
    Computation Result → Prop
  | done _ | fail _ => True
  | argument _ next =>
      mayAskArguments ∧ ∀ value, (next value).KeepsTo children mayAskArguments places
  | valueOf path next =>
      places path ∧ ∀ value, (next value).KeepsTo children mayAskArguments places
  | childPaths path next => (next (children path)).KeepsTo children mayAskArguments places

section KeepsTo

variable {children : Path → List Path} {mayAskArguments : Prop} {places : Path → Prop}

theorem keepsTo_pure (result : Result) :
    (pure result : Computation Result).KeepsTo children mayAskArguments places := trivial

theorem keepsTo_bind {first : Computation First} {following : First → Computation Result}
    (firstKeeps : first.KeepsTo children mayAskArguments places)
    (followingKeeps : ∀ result, (following result).KeepsTo children mayAskArguments places) :
    (first >>= following).KeepsTo children mayAskArguments places := by
  change (first.andThen following).KeepsTo children mayAskArguments places
  induction first with
  | done result => exact followingKeeps result
  | fail error => trivial
  | argument index next ih => exact ⟨firstKeeps.1, fun value => ih value (firstKeeps.2 value)⟩
  | valueOf path next ih => exact ⟨firstKeeps.1, fun value => ih value (firstKeeps.2 value)⟩
  | childPaths path next ih => exact ih _ firstKeeps

theorem keepsTo_askArgument (may : mayAskArguments) (index : Nat) :
    (askArgument index).KeepsTo children mayAskArguments places :=
  ⟨may, fun _ => trivial⟩

theorem keepsTo_askValue {path : Path} (isPlace : places path) :
    (askValue path).KeepsTo children mayAskArguments places :=
  ⟨isPlace, fun _ => trivial⟩

theorem keepsTo_bind_askChildren {path : Path} {following : List Path → Computation Result}
    (followingKeeps : (following (children path)).KeepsTo children mayAskArguments places) :
    (askChildren path >>= following).KeepsTo children mayAskArguments places :=
  followingKeeps

theorem KeepsTo.of_asks {question : Question}
    (keeps : computation.KeepsTo answers.childPaths mayAskArguments places)
    (asks : Asks answers computation question) : question.IsAmong mayAskArguments places := by
  induction asks with
  | argument => exact keeps.1
  | value => exact keeps.1
  | afterArgument _ _ ih => exact ih (keeps.2 _)
  | afterValue _ ih => exact ih (keeps.2 _)
  | afterChildren _ ih => exact ih keeps

end KeepsTo

end Computation

namespace Operation

/-- Some shape is that of a reference for which the operation says that it reads the place. -/
def SaysReads (operation : Operation) (children : Path → List Path)
    (shapes : List ArgumentShape) (path : Path) : Prop :=
  ∃ reads, operation.reads = some reads ∧
    ∃ shape ∈ shapes, ∃ place, shape.place? = some place ∧ path ∈ reads children place

/-- The operation asks for arguments or for the places that it says it reads. -/
def IsHonest (operation : Operation) : Prop :=
  ∀ children shapes, (operation.compute shapes).KeepsTo children (operation.reads = none)
    (operation.SaysReads children shapes)

open InspectionFormula.Computation

theorem isHonest_unary (name : String) (apply : Binary64 → Binary64) :
    (unary name apply).IsHonest := by
  intro children shapes
  exact keepsTo_bind (keepsTo_askArgument rfl 0) fun _ => keepsTo_pure _

theorem isHonest_binary (name : String) (apply : Binary64 → Binary64 → Option Binary64) :
    (binary name apply).IsHonest := by
  intro children shapes
  refine keepsTo_bind (keepsTo_askArgument rfl 0) fun _ => ?_
  exact keepsTo_bind (keepsTo_askArgument rfl 1) fun _ => keepsTo_pure _

theorem isHonest_round : Numeric.round.IsHonest := by
  intro children shapes
  refine keepsTo_bind (keepsTo_askArgument rfl 0) fun value => ?_
  cases value with
  | none => exact keepsTo_pure _
  | some value => exact keepsTo_bind (keepsTo_askArgument rfl 1) fun _ => keepsTo_pure _

section Arguments

variable {children : Path → List Path} {mayAskArguments : Prop} {places : Path → Prop}

theorem keepsTo_firstPresent (may : mayAskArguments) (index count : Nat) :
    (Numeric.firstPresent index count).KeepsTo children mayAskArguments places := by
  induction count generalizing index with
  | zero => exact keepsTo_pure _
  | succ count ih =>
      refine keepsTo_bind (keepsTo_askArgument may index) fun value => ?_
      cases value with
      | none => exact ih (index + 1)
      | some value => exact keepsTo_pure _

theorem keepsTo_argumentValues (may : mayAskArguments) (index count : Nat) :
    (Aggregate.argumentValues index count).KeepsTo children mayAskArguments places := by
  induction count generalizing index with
  | zero => exact keepsTo_pure _
  | succ count ih =>
      refine keepsTo_bind (keepsTo_askArgument may index) fun value => ?_
      exact keepsTo_bind (ih (index + 1)) fun _ => keepsTo_pure _

theorem keepsTo_placeValues {paths : List Path} (arePlaces : ∀ path ∈ paths, places path) :
    (Aggregate.placeValues paths).KeepsTo children mayAskArguments places := by
  induction paths with
  | nil => exact keepsTo_pure _
  | cons path others ih =>
      obtain ⟨isPlace, arePlaces⟩ := List.forall_mem_cons.1 arePlaces
      refine keepsTo_bind (keepsTo_askValue isPlace) fun value => ?_
      exact keepsTo_bind (ih arePlaces) fun _ => keepsTo_pure _

theorem keepsTo_coordinates {point : Path} {axes : List Axis}
    (arePlaces : ∀ path ∈ Coordinates.places axes children point, places path) :
    (Coordinates.values point (children point) axes).KeepsTo children mayAskArguments
      places := by
  induction axes with
  | nil => exact keepsTo_pure _
  | cons axis axes ih =>
      unfold Coordinates.values
      simp only [Coordinates.places, List.filterMap_cons] at arePlaces ih
      split
      · exact keepsTo_pure _
      · next path found =>
          rw [found] at arePlaces
          obtain ⟨isPlace, arePlaces⟩ := List.forall_mem_cons.1 arePlaces
          refine keepsTo_bind (keepsTo_askValue isPlace) fun value => ?_
          cases value with
          | none => exact keepsTo_pure _
          | some value => exact keepsTo_bind (ih arePlaces) fun _ => keepsTo_pure _

theorem keepsTo_ofArgument {axes : List Axis} {shape : ArgumentShape}
    (arePlaces : ∀ point, shape.place? = some point →
      ∀ path ∈ Coordinates.places axes children point, places path) :
    (Coordinates.ofArgument axes shape).KeepsTo children mayAskArguments places := by
  unfold Coordinates.ofArgument
  cases refers : shape.place? with
  | none => exact keepsTo_pure _
  | some point =>
      exact keepsTo_bind_askChildren (keepsTo_coordinates (arePlaces point refers))

end Arguments

theorem isHonest_coalesce : Numeric.coalesce.IsHonest :=
  fun _ _ => keepsTo_firstPresent rfl 0 _

theorem isHonest_aggregate (name : String) (reduce : List Binary64 → Option Binary64) :
    (aggregate name reduce).IsHonest :=
  fun _ _ => keepsTo_bind (keepsTo_argumentValues rfl 0 _) fun _ => keepsTo_pure _

theorem isHonest_count : Aggregate.count.IsHonest :=
  fun _ _ => keepsTo_bind (keepsTo_argumentValues rfl 0 _) fun _ => keepsTo_pure _

theorem isHonest_grade (name : String) (reduce : List Binary64 → Option Binary64) :
    (grade name reduce).IsHonest := by
  intro children shapes
  simp only [grade]
  split
  · exact keepsTo_pure _
  · next group refers =>
      obtain ⟨shape, first, isGroup⟩ := Option.bind_eq_some_iff.1 refers
      refine keepsTo_bind_askChildren ?_
      refine keepsTo_bind (keepsTo_placeValues ?_) fun _ => keepsTo_pure _
      intro path isChild
      exact ⟨_, rfl, shape, List.mem_of_head? first, group, isGroup, isChild⟩

theorem isHonest_pointDistance (name : String) (axes : List Axis) :
    (pointDistance name axes).IsHonest := by
  intro children shapes
  simp only [pointDistance]
  split
  · next first second rest =>
      refine keepsTo_bind (keepsTo_ofArgument ?_) fun start =>
        keepsTo_bind (keepsTo_ofArgument ?_) fun finish => keepsTo_pure _
      · intro point refers path isCoordinate
        exact ⟨_, rfl, first, by simp, point, refers, isCoordinate⟩
      · intro point refers path isCoordinate
        exact ⟨_, rfl, second, by simp, point, refers, isCoordinate⟩
  · exact keepsTo_pure _

theorem isHonest_truePosition (name : String) (axes : List Axis) :
    (truePosition name axes).IsHonest := by
  intro children shapes
  simp only [truePosition]
  split
  · next shape rest =>
      refine keepsTo_bind (keepsTo_ofArgument ?_) fun deviation => keepsTo_pure _
      intro point refers path isCoordinate
      exact ⟨_, rfl, shape, by simp, point, refers, isCoordinate⟩
  · exact keepsTo_pure _

end Operation

namespace Catalog

theorem isHonest_of_mem_standard {operation : Operation}
    (member : operation ∈ standard.operations.values) : operation.IsHonest :=
  standard_cases Operation.isHonest_unary Operation.isHonest_binary Operation.isHonest_round
    Operation.isHonest_coalesce Operation.isHonest_aggregate Operation.isHonest_count
    Operation.isHonest_pointDistance Operation.isHonest_truePosition Operation.isHonest_grade
    operation member

end Catalog

end InspectionFormula
