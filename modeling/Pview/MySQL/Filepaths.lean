import Mathlib.Algebra.Order.Ring.Int
import Mathlib.Data.List.MinMax

/-!
# The filepaths table

Rows of `filepaths_{project_id}` and what the statements on it do.  A
`DATETIME` is kept as its Unix time, `none` being `NULL`; the session time zone
is one in which the two determine each other.
-/

namespace Pview.MySQL

structure FilepathRow where
  filepathId : Int
  filepath : String
  createTime : Option Nat
  deriving DecidableEq, Repr

/-- `FROM_UNIXTIME`, which is `NULL` outside of its range. -/
def fromUnixtime (timestamp : Int) : Option Nat :=
  if 0 ≤ timestamp ∧ timestamp ≤ 32536771199 then
    some timestamp.toNat
  else
    none

/-- `SQL_replace_filepath`; `filepath_id` is the primary key. -/
def replaceFilepath (rows : List FilepathRow) (filepathId : Int)
    (filepath : String) (createTime : Int) : List FilepathRow :=
  (rows.filter fun row => row.filepathId ≠ filepathId) ++
    [⟨filepathId, filepath, fromUnixtime createTime⟩]

/-- `SQL_query_filepath_id`; the rows come in any order. -/
def filepathIds (rows : List FilepathRow) (filepath : String) : List Int :=
  (rows.filter fun row => row.filepath = filepath).map
    fun row => row.filepathId

def maxFilepathId (rows : List FilepathRow) : Option Int :=
  (rows.map fun row => row.filepathId).max?

def maxCreateTime (rows : List FilepathRow) (filepath : String) :
    Option Nat :=
  ((rows.filter fun row => row.filepath = filepath).filterMap
    fun row => row.createTime).max?

def getInt : Option Int → Int
  | none => 0
  | some value => Int.bmod value (2 ^ 32)

/-- `ParseTask::get_file_last_mtime`; `answered` tells whether the query gives
a result set. -/
def getFileLastMtime (answered : Bool) (rows : List FilepathRow)
    (filepath : String) : Int :=
  if answered then
    getInt ((maxCreateTime rows filepath).map fun time => (time : Int))
  else
    0

theorem getInt_range (value : Int) :
    -2 ^ 31 ≤ getInt (some value) ∧ getInt (some value) < 2 ^ 31 := by
  simp only [getInt, Int.bmod]
  constructor <;> split <;> omega

theorem le_getInt_iff (value : Int) :
    value ≤ getInt (some value) ↔ value < 2 ^ 31 := by
  simp only [getInt, Int.bmod]
  split <;> omega

theorem getInt_le {value : Int} (h : 0 ≤ value) :
    getInt (some value) ≤ value := by
  simp only [getInt, Int.bmod]
  split <;> omega

theorem mem_replaceFilepath {rows : List FilepathRow} {filepathId : Int}
    {filepath : String} {createTime : Int} {row : FilepathRow}
    (h : row ∈ replaceFilepath rows filepathId filepath createTime) :
    row ∈ rows ∨ row = ⟨filepathId, filepath, fromUnixtime createTime⟩ := by
  simp only [replaceFilepath, List.mem_append, List.mem_filter,
    List.mem_singleton] at h
  rcases h with ⟨hold, -⟩ | hnew
  · exact .inl hold
  · exact .inr hnew

theorem fromUnixtime_eq_some {timestamp : Int} {time : Nat}
    (h : fromUnixtime timestamp = some time) : (time : Int) = timestamp := by
  unfold fromUnixtime at h
  split at h
  · cases h
    omega
  · contradiction

theorem exists_row_of_getFileLastMtime {answered : Bool}
    {rows : List FilepathRow} {filepath : String}
    (h : 0 < getFileLastMtime answered rows filepath) :
    ∃ row ∈ rows, row.filepath = filepath ∧ ∃ time, row.createTime = some time ∧
      getFileLastMtime answered rows filepath ≤ time := by
  unfold getFileLastMtime at h ⊢
  cases answered with
  | false => simp at h
  | true =>
      simp only [if_true] at h ⊢
      cases hmax : maxCreateTime rows filepath with
      | none => simp [hmax, getInt] at h
      | some time =>
          have hmem := List.max?_mem hmax
          simp only [List.mem_filterMap, List.mem_filter,
            decide_eq_true_eq] at hmem
          obtain ⟨row, ⟨hrow, hpath⟩, htime⟩ := hmem
          exact ⟨row, hrow, hpath, time, htime,
            getInt_le (Int.natCast_nonneg time)⟩

end Pview.MySQL
