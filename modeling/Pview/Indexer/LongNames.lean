import Pview.Indexer.SymbolTables

/-!
# Names longer than their column

`usr` and `qualified` are `VARCHAR(512)` columns, and `usr` is the primary key
of `func_definitions`.  An `INSERT IGNORE` cuts a longer value off, so a
definition whose USR is too long is stored under another key, which may be that
of a row that exists.
-/

namespace Pview.Indexer

open Pview.Foundation.PrimaryKey
open Pview.MySQL

/-- What `INSERT IGNORE` stores of a value in a `VARCHAR(512)` column. -/
def varchar512 (value : String) : String :=
  String.ofList (value.toList.take 512)

theorem varchar512_length_le (value : String) :
    (varchar512 value).length ≤ 512 := by
  simp only [varchar512, String.length_ofList, List.length_take]
  omega

theorem varchar512_eq_self {value : String} (h : value.length ≤ 512) :
    varchar512 value = value := by
  rw [varchar512, List.take_of_length_le (by rwa [String.length_toList]),
    String.ofList_toList]

def funcDefStmts (batches : List (Int × List FuncDef)) : List Statement :=
  batches.map fun batch => .insertFuncDefs batch.1 batch.2

theorem funcDefRowsOf_funcDefStmts (column : String → String)
    (batches : List (Int × List FuncDef)) :
    funcDefRowsOf column (funcDefStmts batches) =
      batches.flatMap fun batch => batch.2.map (FuncDef.row column batch.1) := by
  simp [funcDefRowsOf, funcDefStmts, List.flatMap_map, Statement.funcDefRows]

/-- One row for each definition, and each USR is found with the qualified name
of its definition. -/
structure FindsEach (index : Index) (defs : List FuncDef) : Prop where
  rows : index.funcDefinitions.length = defs.length
  finds : ∀ d ∈ defs,
    (lookup FuncDefRow.usr index.funcDefinitions d.info.usr).map
      FuncDefRow.qualified = some d.info.qualified

def FuncDef.Fits (d : FuncDef) : Prop :=
  d.info.usr.length ≤ 512 ∧ d.info.qualified.length ≤ 512

private theorem fits_of_finds {batches : List (Int × List FuncDef)}
    {d : FuncDef}
    (h : (lookup FuncDefRow.usr (executeLog varchar512 .empty
      (funcDefStmts batches)).funcDefinitions d.info.usr).map
        FuncDefRow.qualified = some d.info.qualified) : d.Fits := by
  obtain ⟨row, hrow, hqualified⟩ := Option.map_eq_some_iff.mp h
  have husr : row.usr = d.info.usr := by simpa using List.find?_some hrow
  have hmem := List.mem_of_find?_eq_some hrow
  rw [funcDefinitions_executeLog, funcDefRowsOf_funcDefStmts] at hmem
  have hsent := (mem_insertAllIgnore hmem).resolve_left (by simp [Index.empty])
  simp only [List.mem_flatMap, List.mem_map] at hsent
  obtain ⟨batch, -, d', -, rfl⟩ := hsent
  rw [FuncDef.Fits, ← husr, ← hqualified]
  exact ⟨varchar512_length_le _, varchar512_length_le _⟩

private theorem row_of_fits {d : FuncDef} (h : d.Fits) (currentTime : Int) :
    (d.row varchar512 currentTime).usr = d.info.usr ∧
      (d.row varchar512 currentTime).qualified = d.info.qualified :=
  ⟨varchar512_eq_self h.1, varchar512_eq_self h.2⟩

private theorem funcDefinitions_of_fits {batches : List (Int × List FuncDef)}
    (hdistinct : ((batches.flatMap Prod.snd).map fun d => d.info.usr).Nodup)
    (hfits : ∀ d ∈ batches.flatMap Prod.snd, d.Fits) :
    (executeLog varchar512 .empty (funcDefStmts batches)).funcDefinitions =
      batches.flatMap fun batch =>
        batch.2.map (FuncDef.row varchar512 batch.1) := by
  have husrs : (batches.flatMap fun batch =>
      batch.2.map (FuncDef.row varchar512 batch.1)).map FuncDefRow.usr =
        (batches.flatMap Prod.snd).map fun d => d.info.usr := by
    rw [List.map_flatMap, List.map_flatMap]
    refine List.flatMap_congr fun batch hbatch => ?_
    rw [List.map_map]
    refine List.map_congr_left fun d hd => ?_
    have hmem := List.mem_flatMap.mpr ⟨batch, hbatch, hd⟩
    exact (row_of_fits (hfits d hmem) batch.1).1
  rw [funcDefinitions_executeLog, funcDefRowsOf_funcDefStmts]
  refine insertAllIgnore_of_nodup ?_
  rw [Index.empty, List.nil_append, husrs]
  exact hdistinct

/-- Definitions with different USRs are all found again, in whatever batches
and order they are sent, exactly when none of their names is longer than its
column. -/
theorem funcDefs_findsEach_iff {defs : List FuncDef}
    {batches : List (Int × List FuncDef)}
    (hsent : (batches.flatMap Prod.snd).Perm defs)
    (hdistinct : (defs.map fun d => d.info.usr).Nodup) :
    FindsEach (executeLog varchar512 .empty (funcDefStmts batches)) defs ↔
      ∀ d ∈ defs, d.Fits := by
  constructor
  · intro h d hd
    exact fits_of_finds (h.finds d hd)
  · intro hfits
    have hrows := funcDefinitions_of_fits
      ((hsent.map _).nodup_iff.mpr hdistinct)
      (fun d hd => hfits d (hsent.mem_iff.mp hd))
    constructor
    · rw [hrows, ← hsent.length_eq]
      simp [List.length_flatMap]
    · intro d hd
      obtain ⟨batch, hbatch, hmem⟩ :=
        List.mem_flatMap.mp (hsent.mem_iff.mpr hd)
      have hrow := row_of_fits (hfits d hd) batch.1
      have hlookup : lookup FuncDefRow.usr (executeLog varchar512 .empty
          (funcDefStmts batches)).funcDefinitions d.info.usr =
            some (d.row varchar512 batch.1) := by
        rw [lookup_eq_some_iff (Index.usrKey _), hrows]
        refine ⟨List.mem_flatMap.mpr ⟨batch, hbatch, ?_⟩, hrow.1⟩
        exact List.mem_map_of_mem hmem
      rw [hlookup, Option.map_some, hrow.2]

theorem funcDefs_findsEach_iff_short : ∃ defs : List FuncDef,
    FindsEach (executeLog varchar512 .empty
      (funcDefStmts [(0, [⟨2, ⟨"c:@F@g#", "g", false, ⟨1, 8⟩⟩⟩]),
        (0, [⟨1, ⟨"c:@F@f#", "f", true, ⟨1, 3⟩⟩⟩])])) defs := by
  let defs : List FuncDef := [⟨1, ⟨"c:@F@f#", "f", true, ⟨1, 3⟩⟩⟩,
    ⟨2, ⟨"c:@F@g#", "g", false, ⟨1, 8⟩⟩⟩]
  have hfits : ∀ d ∈ defs, d.info.usr.length ≤ 512 ∧
      d.info.qualified.length ≤ 512 := by decide
  refine ⟨defs, (funcDefs_findsEach_iff ?_ ?_).mpr hfits⟩
  · exact List.Perm.swap _ _ _
  · decide

def longPrefix : List Char := List.replicate 512 'a'

/-- A definition whose USR goes on where the column ends. -/
def longFuncDef (id : Nat) (suffix : Char) : FuncDef where
  id := id
  info := {
    usr := String.ofList (longPrefix ++ [suffix])
    qualified := String.ofList ['f', suffix]
    funcMightThrow := false
    sourceLocation := ⟨1, 1⟩ }

private theorem varchar512_longFuncDef (id : Nat) (suffix : Char) :
    varchar512 (longFuncDef id suffix).info.usr = String.ofList longPrefix := by
  have hlength : longPrefix.length = 512 := List.length_replicate
  rw [varchar512, longFuncDef, String.toList_ofList, ← hlength,
    List.take_left]

theorem funcDefs_loses_long_usr :
    ¬∀ (defs : List FuncDef) (batches : List (Int × List FuncDef)),
      (batches.flatMap Prod.snd).Perm defs →
      (defs.map fun d => d.info.usr).Nodup →
      FindsEach (executeLog varchar512 .empty (funcDefStmts batches))
        defs := by
  intro h
  have hfinds := h [longFuncDef 1 '1', longFuncDef 2 '2']
    [(0, [longFuncDef 1 '1', longFuncDef 2 '2'])] (List.Perm.refl _)
    (by simp [longFuncDef])
  have hrows := hfinds.rows
  rw [funcDefinitions_executeLog, funcDefRowsOf_funcDefStmts] at hrows
  simp [insertAllIgnore, insertIgnore, Index.empty, FuncDef.row,
    varchar512_longFuncDef] at hrows

end Pview.Indexer
