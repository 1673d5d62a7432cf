import Pview.Foundation.PrimaryKey
import Pview.MySQL.Filepaths
import Pview.MySQL.Tables

/-!
# Where the id counters start

`do_prepare` starts the three id counters of `IndexCtx` after the greatest id
of their tables, which it reads with `ResultSet::getInt`: an `int32_t`.
-/

namespace Pview.Indexer

open Pview.Foundation.PrimaryKey
open Pview.MySQL

/-- The tables of a project, all ids in `BIGINT` columns and below the greatest
value of these. -/
structure ProjectTables where
  filepaths : List FilepathRow
  index : Index
  bigint : ∀ id ∈ filepaths.map FilepathRow.filepathId ++
      index.funcDefinitions.map FuncDefRow.funcDefId ++
      index.funcCalls.map FuncCallRow.funcCallId,
    -2 ^ 63 ≤ id ∧ id < 2 ^ 63 - 1

namespace ProjectTables

variable (tables : ProjectTables)

def filepathIds : List Int := tables.filepaths.map FilepathRow.filepathId

def funcDefIds : List Int :=
  tables.index.funcDefinitions.map FuncDefRow.funcDefId

def funcCallIds : List Int := tables.index.funcCalls.map FuncCallRow.funcCallId

end ProjectTables

def maxIdLoop (result : List (Option Int)) : Int :=
  result.foldl (fun _ value => getInt value) 1

/-- What `do_prepare` stores in the counter of a column.  `MAX` gives one row,
with `NULL` for an empty table. -/
def nextId (ids : List Int) : Int := maxIdLoop [ids.max?] + 1

/-- What the call number `k` of `get_next_..._id` returns: a `fetch_add` on an
`int64_t`. -/
def getNextId (start : Int) (k : Nat) : Int := Int.bmod (start + k) (2 ^ 64)

def GivenFrom (start id : Int) : Prop :=
  ∃ k : Nat, start + k < 2 ^ 63 ∧ getNextId start k = id

theorem nextId_range (ids : List Int) :
    -2 ^ 31 < nextId ids ∧ nextId ids ≤ 2 ^ 31 := by
  cases hmax : ids.max? with
  | none => simp [nextId, maxIdLoop, hmax, getInt]
  | some value =>
      have hrange := getInt_range value
      simp only [nextId, maxIdLoop, hmax, List.foldl_cons, List.foldl_nil]
      omega

theorem givenFrom_iff {start id : Int} (hstart : -2 ^ 63 ≤ start) :
    GivenFrom start id ↔ start ≤ id ∧ id < 2 ^ 63 := by
  constructor
  · rintro ⟨k, hk, rfl⟩
    simp only [getNextId, Int.bmod]
    split <;> omega
  · rintro ⟨hle, hlt⟩
    refine ⟨(id - start).toNat, by omega, ?_⟩
    simp only [getNextId, Int.bmod]
    split <;> omega

def Fresh (ids : List Int) : Prop := ∀ id ∈ ids, ¬GivenFrom (nextId ids) id

theorem fresh_iff {ids : List Int} (hrange : ∀ id ∈ ids, id < 2 ^ 63 - 1) :
    Fresh ids ↔ ∀ id ∈ ids, id < 2 ^ 31 := by
  have hnext := nextId_range ids
  have hgiven : Fresh ids ↔ ∀ id ∈ ids, id < nextId ids := by
    refine forall₂_congr fun id hid => ?_
    have hlt := hrange id hid
    rw [givenFrom_iff (by omega)]
    omega
  rw [hgiven]
  cases hmax : ids.max? with
  | none => simp [List.max?_eq_none_iff.mp hmax]
  | some greatest =>
      have hmem := List.max?_mem hmax
      have hle := (List.max?_le_iff hmax).mp (Int.le_refl greatest)
      have hiff := le_getInt_iff greatest
      have heq : nextId ids = getInt (some greatest) + 1 := by
        simp [nextId, maxIdLoop, hmax]
      constructor
      · intro h id hid
        have hgreatest := h greatest hmem
        have hid := hle id hid
        omega
      · intro h id hid
        have hgreatest := h greatest hmem
        have hid := hle id hid
        omega

/-! ## The tables -/

/-- New ids differ from the stored ones, and so no call row is ignored and no
row of a file replaced. -/
structure ProjectTables.KeptApart (tables : ProjectTables) : Prop where
  filepathIds : Fresh tables.filepathIds
  funcDefIds : Fresh tables.funcDefIds
  funcCallIds : Fresh tables.funcCallIds
  callsStored : ∀ new : List FuncCallRow,
    (new.map FuncCallRow.funcCallId).Nodup →
    (∀ row ∈ new, GivenFrom (nextId tables.funcCallIds) row.funcCallId) →
    insertAllIgnore FuncCallRow.funcCallId tables.index.funcCalls new =
      tables.index.funcCalls ++ new
  filesKept : ∀ id filepath createTime,
    GivenFrom (nextId tables.filepathIds) id →
    ∀ row ∈ tables.filepaths,
      row ∈ replaceFilepath tables.filepaths id filepath createTime

private theorem callsStored_of_fresh {tables : ProjectTables}
    (h : Fresh tables.funcCallIds) (new : List FuncCallRow)
    (hnodup : (new.map FuncCallRow.funcCallId).Nodup)
    (hgiven : ∀ row ∈ new,
      GivenFrom (nextId tables.funcCallIds) row.funcCallId) :
    insertAllIgnore FuncCallRow.funcCallId tables.index.funcCalls new =
      tables.index.funcCalls ++ new := by
  refine insertAllIgnore_of_nodup ?_
  rw [List.map_append, List.nodup_append]
  refine ⟨tables.index.funcCallIdKey, hnodup, ?_⟩
  intro id hid id' hid' heq
  obtain ⟨row, hrow, rfl⟩ := List.mem_map.mp hid'
  exact h id hid (heq ▸ hgiven row hrow)

private theorem filesKept_of_fresh {tables : ProjectTables}
    (h : Fresh tables.filepathIds) {id : Int} (filepath : String)
    (createTime : Int) (hgiven : GivenFrom (nextId tables.filepathIds) id)
    {row : FilepathRow} (hrow : row ∈ tables.filepaths) :
    row ∈ replaceFilepath tables.filepaths id filepath createTime := by
  have hne : row.filepathId ≠ id := by
    rintro rfl
    exact h _ (List.mem_map_of_mem hrow) hgiven
  simp [replaceFilepath, hrow, hne]

/-- A new run keeps its ids apart from the stored ones exactly when every
stored id is an `int32_t` or below. -/
theorem idsKeptApart_iff (tables : ProjectTables) :
    tables.KeptApart ↔
      (∀ id ∈ tables.filepathIds, id < 2 ^ 31) ∧
      (∀ id ∈ tables.funcDefIds, id < 2 ^ 31) ∧
      (∀ id ∈ tables.funcCallIds, id < 2 ^ 31) := by
  have hbigint := tables.bigint
  simp only [List.forall_mem_append] at hbigint
  have hfilepaths := fresh_iff fun id hid => (hbigint.1.1 id hid).2
  have hfuncDefs := fresh_iff fun id hid => (hbigint.1.2 id hid).2
  have hfuncCalls := fresh_iff fun id hid => (hbigint.2 id hid).2
  constructor
  · intro h
    exact ⟨hfilepaths.mp h.filepathIds, hfuncDefs.mp h.funcDefIds,
      hfuncCalls.mp h.funcCallIds⟩
  · rintro ⟨hfile, hdef, hcall⟩
    exact {
      filepathIds := hfilepaths.mpr hfile
      funcDefIds := hfuncDefs.mpr hdef
      funcCallIds := hfuncCalls.mpr hcall
      callsStored := callsStored_of_fresh (hfuncCalls.mpr hcall)
      filesKept := fun id filepath createTime hgiven row hrow =>
        filesKept_of_fresh (hfilepaths.mpr hfile) filepath createTime hgiven
          hrow }

def callRow (id : Int) : FuncCallRow :=
  ⟨id, 0, "c:@F@main#", 0, "c:@F@f#", "f", 1, 5⟩

private theorem defRows_nodup :
    (([] : List FuncDefRow).map FuncDefRow.usr).Nodup := .nil

private theorem callRows_nodup :
    ([callRow 1, callRow (2 ^ 32)].map FuncCallRow.funcCallId).Nodup := by
  decide

private theorem callRows_bigint :
    ∀ id ∈ [callRow 1, callRow (2 ^ 32)].map FuncCallRow.funcCallId,
      -2 ^ 63 ≤ id ∧ id < 2 ^ 63 - 1 := by
  decide

def manyCalls : ProjectTables where
  filepaths := []
  index := ⟨[], [callRow 1, callRow (2 ^ 32)], defRows_nodup, callRows_nodup⟩
  bigint := callRows_bigint

/-- The low half of `2 ^ 32` is zero, so the first new call gets the id 1 and
its row is ignored. -/
theorem newCall_ignored_after_many : ¬∀ tables : ProjectTables,
    tables.KeptApart := by
  intro h
  have hgiven : GivenFrom (nextId manyCalls.funcCallIds) 1 :=
    ⟨0, by decide, by decide⟩
  have hstored := (h manyCalls).callsStored [callRow 1] (by decide)
    (by simpa [callRow] using hgiven)
  revert hstored
  decide

end Pview.Indexer
