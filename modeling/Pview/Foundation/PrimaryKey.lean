import Mathlib.Data.List.Nodup

/-!
# Tables with a primary key

A table is the list of its rows, and `key` gives the primary key of a row.
An insertion that ignores rows whose key exists never changes a row: a lookup
by key finds the first row that was ever inserted with it.
-/

namespace Pview.Foundation.PrimaryKey

variable {κ ρ : Type*} [DecidableEq κ] (key : ρ → κ)

def insertIgnore (rows : List ρ) (row : ρ) : List ρ :=
  if key row ∈ rows.map key then rows else rows ++ [row]

def insertAllIgnore (rows new : List ρ) : List ρ :=
  new.foldl (insertIgnore key) rows

def lookup (rows : List ρ) (k : κ) : Option ρ :=
  rows.find? fun row => key row = k

variable {key}

/-! ## One row -/

theorem nodup_insertIgnore {rows : List ρ} (h : (rows.map key).Nodup)
    (row : ρ) : ((insertIgnore key rows row).map key).Nodup := by
  unfold insertIgnore
  split
  · exact h
  · rename_i hfresh
    rw [List.map_append, List.map_singleton]
    exact List.nodup_append_comm.mp (List.nodup_cons.mpr ⟨hfresh, h⟩)

theorem mem_insertIgnore {rows : List ρ} {row row' : ρ}
    (h : row' ∈ insertIgnore key rows row) : row' ∈ rows ∨ row' = row := by
  unfold insertIgnore at h
  split at h
  · exact .inl h
  · simpa using h

theorem lookup_isSome_iff {rows : List ρ} {k : κ} :
    (lookup key rows k).isSome = true ↔ k ∈ rows.map key := by
  simp [lookup]

theorem lookup_append (rows rows' : List ρ) (k : κ) :
    lookup key (rows ++ rows') k =
      (lookup key rows k).or (lookup key rows' k) :=
  List.find?_append

theorem lookup_insertIgnore (rows : List ρ) (row : ρ) (k : κ) :
    lookup key (insertIgnore key rows row) k =
      lookup key (rows ++ [row]) k := by
  unfold insertIgnore
  split
  · rename_i hold
    rw [lookup_append]
    by_cases hk : key row = k
    · rw [Option.or_of_isSome (lookup_isSome_iff.2 (hk ▸ hold))]
    · simp [lookup, hk]
  · rfl

/-! ## Many rows -/

theorem nodup_insertAllIgnore {rows : List ρ} (h : (rows.map key).Nodup)
    (new : List ρ) : ((insertAllIgnore key rows new).map key).Nodup := by
  induction new generalizing rows with
  | nil => exact h
  | cons row new ih => exact ih (nodup_insertIgnore h row)

theorem mem_insertAllIgnore {rows new : List ρ} {row : ρ}
    (h : row ∈ insertAllIgnore key rows new) : row ∈ rows ∨ row ∈ new := by
  induction new generalizing rows with
  | nil => exact .inl h
  | cons row' new ih =>
      rcases ih h with hrow | hrow
      · rcases mem_insertIgnore hrow with hrow | rfl
        · exact .inl hrow
        · exact .inr List.mem_cons_self
      · exact .inr (List.mem_cons_of_mem row' hrow)

theorem exists_insertAllIgnore_eq (key : ρ → κ) (rows new : List ρ) :
    ∃ added, added.Sublist new ∧
      insertAllIgnore key rows new = rows ++ added := by
  induction new generalizing rows with
  | nil => exact ⟨[], .slnil, (List.append_nil rows).symm⟩
  | cons row new ih =>
      obtain ⟨added, hadded, heq⟩ := ih (insertIgnore key rows row)
      by_cases hold : key row ∈ rows.map key
      · rw [insertIgnore, if_pos hold] at heq
        exact ⟨added, hadded.cons row, by
          rw [insertAllIgnore, List.foldl_cons, insertIgnore, if_pos hold]
          exact heq⟩
      · rw [insertIgnore, if_neg hold, List.append_assoc] at heq
        exact ⟨row :: added, hadded.cons_cons row, by
          rw [insertAllIgnore, List.foldl_cons, insertIgnore, if_neg hold]
          exact heq⟩

theorem insertAllIgnore_append (rows new new' : List ρ) :
    insertAllIgnore key rows (new ++ new') =
      insertAllIgnore key (insertAllIgnore key rows new) new' :=
  List.foldl_append

theorem map_insertAllIgnore {ρ' : Type*} {key' : ρ' → κ} {f : ρ → ρ'}
    (hkey : ∀ row, key' (f row) = key row) (rows new : List ρ) :
    (insertAllIgnore key rows new).map f =
      insertAllIgnore key' (rows.map f) (new.map f) := by
  have hkeys : ∀ rows : List ρ, (rows.map f).map key' = rows.map key := by
    intro rows
    rw [List.map_map]
    exact List.map_congr_left fun row _ => hkey row
  induction new generalizing rows with
  | nil => rfl
  | cons row new ih =>
      have hstep : (insertIgnore key rows row).map f =
          insertIgnore key' (rows.map f) (f row) := by
        unfold insertIgnore
        rw [hkeys, hkey]
        split
        · rfl
        · rw [List.map_append, List.map_singleton]
      calc (insertAllIgnore key (insertIgnore key rows row) new).map f
        _ = insertAllIgnore key' ((insertIgnore key rows row).map f)
            (new.map f) := ih _
        _ = insertAllIgnore key' (rows.map f) ((row :: new).map f) := by
          rw [hstep]
          rfl

/-- The first row inserted with a key is the one that is found. -/
theorem lookup_insertAllIgnore (rows new : List ρ) (k : κ) :
    lookup key (insertAllIgnore key rows new) k =
      lookup key (rows ++ new) k := by
  induction new generalizing rows with
  | nil => rw [List.append_nil]; rfl
  | cons row new ih =>
      calc lookup key (insertAllIgnore key (insertIgnore key rows row) new) k
        _ = lookup key (insertIgnore key rows row ++ new) k := ih _
        _ = lookup key (rows ++ [row] ++ new) k := by
          rw [lookup_append, lookup_insertIgnore, ← lookup_append]
        _ = lookup key (rows ++ row :: new) k := by
          rw [List.append_assoc, List.singleton_append]

/-- Where the key decides `Q`, the ignored rows are not missed. -/
theorem exists_mem_insertAllIgnore_iff {rows new : List ρ} {Q : ρ → Prop}
    (hQ : ∀ row ∈ rows ++ new, ∀ row' ∈ rows ++ new,
      key row = key row' → Q row → Q row') :
    (∃ row ∈ insertAllIgnore key rows new, Q row) ↔
      ∃ row ∈ rows ++ new, Q row := by
  constructor
  · rintro ⟨row, hrow, hholds⟩
    exact ⟨row, List.mem_append.mpr (mem_insertAllIgnore hrow), hholds⟩
  · rintro ⟨row, hrow, hholds⟩
    have hkey := List.mem_map_of_mem (f := key) hrow
    rw [← lookup_isSome_iff] at hkey
    obtain ⟨first, hfirst⟩ := Option.isSome_iff_exists.mp hkey
    have hsame : key first = key row := by simpa using List.find?_some hfirst
    refine ⟨first, ?_, hQ row hrow first (List.mem_of_find?_eq_some hfirst)
      hsame.symm hholds⟩
    rw [← lookup_insertAllIgnore] at hfirst
    exact List.mem_of_find?_eq_some hfirst

theorem insertAllIgnore_of_nodup {rows new : List ρ}
    (h : ((rows ++ new).map key).Nodup) :
    insertAllIgnore key rows new = rows ++ new := by
  induction new generalizing rows with
  | nil => rw [List.append_nil]; rfl
  | cons row new ih =>
      rw [List.append_cons] at h ⊢
      have hfresh : key row ∉ rows.map key := by
        intro hmem
        rw [List.map_append, List.map_append, List.map_singleton] at h
        exact (List.nodup_append.mp (List.nodup_append.mp h).1).2.2 _ hmem _
          List.mem_cons_self rfl
      have hstep : insertIgnore key rows row = rows ++ [row] := if_neg hfresh
      rw [insertAllIgnore, List.foldl_cons, hstep]
      exact ih h

/-! ## Lookups -/

theorem lookup_eq_some_iff {rows : List ρ} (h : (rows.map key).Nodup)
    {k : κ} {row : ρ} :
    lookup key rows k = some row ↔ row ∈ rows ∧ key row = k := by
  have hfound : ∀ row', lookup key rows k = some row' →
      row' ∈ rows ∧ key row' = k := fun row' hrow' =>
    ⟨List.mem_of_find?_eq_some hrow', by simpa using List.find?_some hrow'⟩
  constructor
  · exact hfound row
  · rintro ⟨hrow, rfl⟩
    cases hlookup : lookup key rows (key row) with
    | none =>
        have hsome := lookup_isSome_iff.2 (List.mem_map_of_mem (f := key) hrow)
        rw [hlookup] at hsome
        contradiction
    | some row' =>
        have hrow' := hfound row' hlookup
        rw [List.inj_on_of_nodup_map h hrow'.1 hrow hrow'.2]

end Pview.Foundation.PrimaryKey
