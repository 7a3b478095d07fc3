/-!
# Tables

A table holds at most one value for each key, in the order in which the keys
first came.
-/

namespace InspectionFormula

structure Table (Key Value : Type) where
  entries : List (Key × Value)
  nodup_keys : (entries.map Prod.fst).Nodup

namespace Table

variable {Key Value : Type} [DecidableEq Key]

def empty : Table Key Value := ⟨[], .nil⟩

def keys (table : Table Key Value) : List Key := table.entries.map Prod.fst

def values (table : Table Key Value) : List Value := table.entries.map Prod.snd

def getIn? (key : Key) : List (Key × Value) → Option Value
  | [] => none
  | (known, value) :: rest => if known = key then some value else getIn? key rest

/-- A list of entries with a value for a key, in place of an older one. -/
def putIn (key : Key) (value : Value) : List (Key × Value) → List (Key × Value)
  | [] => [(key, value)]
  | (known, old) :: rest =>
      if known = key then (key, value) :: rest else (known, old) :: putIn key value rest

theorem map_fst_putIn (key : Key) (value : Value) (entries : List (Key × Value)) :
    (putIn key value entries).map Prod.fst =
      if key ∈ entries.map Prod.fst then entries.map Prod.fst
      else entries.map Prod.fst ++ [key] := by
  induction entries with
  | nil => rfl
  | cons entry rest ih =>
      obtain ⟨known, old⟩ := entry
      by_cases same : known = key
      · simp [putIn, same]
      · have other : key ≠ known := Ne.symm same
        simp only [putIn, if_neg same, List.map_cons, ih, List.mem_cons, other, false_or]
        split <;> rfl

theorem nodup_putIn (key : Key) (value : Value) {entries : List (Key × Value)}
    (nodup : (entries.map Prod.fst).Nodup) :
    ((putIn key value entries).map Prod.fst).Nodup := by
  rw [map_fst_putIn]
  split
  · exact nodup
  · next new =>
    refine List.nodup_append.2 ⟨nodup, by simp, ?_⟩
    intro known member other here
    rw [List.mem_singleton.1 here]
    exact fun same => new (same ▸ member)

def get? (table : Table Key Value) (key : Key) : Option Value := getIn? key table.entries

def put (table : Table Key Value) (key : Key) (value : Value) : Table Key Value :=
  ⟨putIn key value table.entries, nodup_putIn key value table.nodup_keys⟩

def erase (table : Table Key Value) (key : Key) : Table Key Value :=
  ⟨table.entries.filter fun entry => decide (entry.1 ≠ key),
    table.nodup_keys.sublist (List.filter_sublist.map Prod.fst)⟩

@[simp] theorem get?_empty (key : Key) : (empty : Table Key Value).get? key = none := rfl

theorem get?_put (table : Table Key Value) (key other : Key) (value : Value) :
    (table.put key value).get? other = if key = other then some value else table.get? other := by
  simp only [get?, put]
  generalize table.entries = entries
  induction entries with
  | nil => simp [putIn, getIn?]
  | cons entry rest ih =>
      obtain ⟨known, old⟩ := entry
      by_cases same : known = key
      · subst same
        simp only [putIn, getIn?]
        split <;> simp_all [getIn?]
      · simp only [putIn, if_neg same, getIn?, ih]
        by_cases here : known = other
        · subst here
          simp [Ne.symm same]
        · simp [here]

theorem mem_keys_of_get? {table : Table Key Value} {key : Key} {value : Value}
    (found : table.get? key = some value) : key ∈ table.keys := by
  simp only [get?, keys] at found ⊢
  generalize table.entries = entries at found ⊢
  induction entries with
  | nil => simp [getIn?] at found
  | cons entry rest ih =>
      obtain ⟨known, old⟩ := entry
      by_cases same : known = key
      · simp [same]
      · simp only [getIn?, if_neg same] at found
        exact List.mem_cons_of_mem _ (ih found)

theorem mem_entries_of_put {table : Table Key Value} {key : Key} {value : Value}
    {entry : Key × Value} (member : entry ∈ (table.put key value).entries) :
    entry = (key, value) ∨ entry ∈ table.entries := by
  simp only [put] at member
  generalize table.entries = entries at member ⊢
  induction entries with
  | nil => simpa [putIn] using member
  | cons first rest ih =>
      obtain ⟨known, old⟩ := first
      unfold putIn at member
      split at member
      · rcases List.mem_cons.1 member with new | later
        · exact .inl new
        · exact .inr (List.mem_cons_of_mem _ later)
      · rcases List.mem_cons.1 member with here | later
        · exact .inr (here ▸ List.mem_cons_self)
        · exact (ih later).imp_right (List.mem_cons_of_mem _)

end Table

end InspectionFormula
