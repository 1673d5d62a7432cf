import Pview.Foundation.Transition
import Pview.MySQL.Filepaths
import Pview.Reindex.IncludeAnalyzer

/-!
# Edits and indexing runs

The history of one translation unit: its files are modified, it is indexed,
and the row of its main file is stored.  The clock counts nanoseconds and never
goes back; stored times and modification times are its seconds.  Files are
modified or created, never deleted.  An indexing may start at any moment: the
check that asked for it was made earlier, on other contents and other rows.

What the preprocessor includes is a parameter of the unit.  `ReadsDecide` is
what is relied on: two runs over the same files part only at a file that both
read and that differs, at one that only the later run finds for an inclusion,
or at a `__has_include` that only the later run answers with yes.
-/

namespace Pview.Reindex

open Pview.Foundation
open Pview.MySQL

abbrev Contents := String → Option String

/-- A compile command: its main file, the path stored for that file, the files
of its inclusion directives for given contents, and those whose existence its
`__has_include` expressions ask for. -/
structure TranslationUnit where
  mainFile : String
  filepath : String
  includes : Contents → List String
  probes : Contents → List String

def TranslationUnit.files (u : TranslationUnit) (contents : Contents) :
    List String :=
  u.mainFile :: u.includes contents

def TranslationUnit.ReadsDecide (u : TranslationUnit) : Prop :=
  ∀ before after : Contents,
    (∀ file, after file = none → before file = none) →
    (∀ file ∈ u.files after,
      (before file = none → after file = none) ∧
      (file ∈ u.files before → before file = after file)) →
    (∀ file ∈ u.probes before, before file = none → after file = none) →
    ∀ file ∈ u.files before, file ∈ u.files after

structure Indexing where
  filepathId : Int
  time : Int
  /-- The contents it finds: those at its start, or when it reads the file or
  asks for it. -/
  view : Contents
  reads : List String
  probed : List String
  /-- The files modified after they were read. -/
  stale : List String

inductive Progress where
  | idle
  | parsing (indexing : Indexing)
  | queued (indexing : Indexing)

structure History where
  now : Nat
  contents : Contents
  mtime : String → Int
  filepaths : List FilepathRow
  progress : Progress
  /-- The last indexing whose complete batch was stored. -/
  last : Option Indexing

inductive Event where
  | advance (nanoseconds : Nat)
  | modify (file text : String)
  | startIndexing (filepathId : Int)
  | read (file : String)
  | probe (file : String)
  | finishParse
  | failParse
  | storeBatch
  | loseBatch
  /-- Any other `REPLACE`: of another unit, of an incomplete batch of this
  one, or of `query_or_assign_file_id`. -/
  | writeRow (filepathId : Int) (filepath : String) (createTime : Int)

namespace Indexing

def start (contents : Contents) (filepathId time : Int) : Indexing where
  filepathId := filepathId
  time := time
  view := contents
  reads := []
  probed := []
  stale := []

def read (indexing : Indexing) (contents : Contents) (file : String) :
    Indexing :=
  { indexing with
    view := Function.update indexing.view file (contents file)
    reads := file :: indexing.reads }

def probe (indexing : Indexing) (contents : Contents) (file : String) :
    Indexing :=
  { indexing with
    view :=
      if file ∈ indexing.reads then indexing.view
      else Function.update indexing.view file (contents file)
    probed := file :: indexing.probed }

def touch (file : String) (indexing : Indexing) : Indexing :=
  if file ∈ indexing.reads then
    { indexing with stale := file :: indexing.stale }
  else
    indexing

@[simp] theorem touch_time (file : String) (indexing : Indexing) :
    (indexing.touch file).time = indexing.time := by
  unfold touch
  split <;> rfl

@[simp] theorem touch_view (file : String) (indexing : Indexing) :
    (indexing.touch file).view = indexing.view := by
  unfold touch
  split <;> rfl

@[simp] theorem touch_reads (file : String) (indexing : Indexing) :
    (indexing.touch file).reads = indexing.reads := by
  unfold touch
  split <;> rfl

@[simp] theorem touch_probed (file : String) (indexing : Indexing) :
    (indexing.touch file).probed = indexing.probed := by
  unfold touch
  split <;> rfl

theorem mem_touch_stale (file : String) (indexing : Indexing) (f : String) :
    f ∈ (indexing.touch file).stale ↔
      f = file ∧ file ∈ indexing.reads ∨ f ∈ indexing.stale := by
  unfold touch
  split <;> simp_all

end Indexing

namespace Progress

def indexing? : Progress → Option Indexing
  | idle => none
  | parsing indexing => some indexing
  | queued indexing => some indexing

def touch (file : String) : Progress → Progress
  | idle => idle
  | parsing indexing => parsing (indexing.touch file)
  | queued indexing => queued (indexing.touch file)

end Progress

namespace History

def init : History where
  now := 0
  contents := fun _ => none
  mtime := fun _ => 0
  filepaths := []
  progress := .idle
  last := none

def second (s : History) : Int := s.now / 10 ^ 9

def modify (s : History) (file text : String) : History :=
  { s with
    contents := Function.update s.contents file (some text)
    mtime := Function.update s.mtime file s.second
    progress := s.progress.touch file
    last := s.last.map (Indexing.touch file) }

def writeRow (s : History) (filepathId : Int) (filepath : String)
    (createTime : Int) : History :=
  { s with
    filepaths := replaceFilepath s.filepaths filepathId filepath createTime }

def step (u : TranslationUnit) (s : History) : Event → Option History
  | .advance nanoseconds => some { s with now := s.now + nanoseconds }
  | .modify file text => some (s.modify file text)
  | .startIndexing filepathId =>
      match s.progress with
      | .idle => some { s with
          progress := .parsing (.start s.contents filepathId s.second) }
      | _ => none
  | .read file =>
      match s.progress with
      | .parsing indexing =>
          if file ∉ indexing.reads ∧ s.contents file ≠ none then
            some { s with progress := .parsing (indexing.read s.contents file) }
          else
            none
      | _ => none
  | .probe file =>
      match s.progress with
      | .parsing indexing =>
          -- the answer for a file is kept and not asked for again
          if file ∉ indexing.probed then
            some { s with
              progress := .parsing (indexing.probe s.contents file) }
          else
            none
      | _ => none
  | .finishParse =>
      match s.progress with
      | .parsing indexing =>
          if (∀ file ∈ u.files indexing.view, file ∈ indexing.reads) ∧
              (∀ file ∈ indexing.reads, file ∈ u.files indexing.view) ∧
              ∀ file ∈ u.probes indexing.view, file ∈ indexing.probed then
            some { s with progress := .queued indexing }
          else
            none
      | _ => none
  | .failParse =>
      match s.progress with
      | .parsing _ => some { s with progress := .idle }
      | _ => none
  | .storeBatch =>
      match s.progress with
      | .queued indexing => some
          { s.writeRow indexing.filepathId u.filepath indexing.time with
            progress := .idle
            last := some indexing }
      | _ => none
  | .loseBatch =>
      match s.progress with
      | .queued _ => some { s with progress := .idle }
      | _ => none
  | .writeRow filepathId filepath createTime =>
      -- it is the present second, or an earlier start or modification
      if createTime ≤ s.second then
        some (s.writeRow filepathId filepath createTime)
      else
        none

def Analyzes (u : TranslationUnit) (s : History) : Analysis → Prop
  | .done mtimes => mtimes = (u.includes s.contents).map s.mtime
  | _ => True

/-- `check_need_reindex` for the unit, after `get_file_last_mtime`. -/
def needReindex (u : TranslationUnit) (s : History) (answered : Bool)
    (analysis : Analysis) : Bool :=
  checkNeedReindex (s.contents u.mainFile).isSome (s.mtime u.mainFile)
    (getFileLastMtime answered s.filepaths u.filepath) analysis

def indexings (s : History) : List Indexing :=
  s.last.toList ++ s.progress.indexing?.toList

end History

def editHistory (u : TranslationUnit) : System History Event where
  init := .init
  step := History.step u

/-- The indexing has read what its preprocessing includes, and asked for what
it asks for. -/
structure Indexing.Complete (u : TranslationUnit) (indexing : Indexing) :
    Prop where
  mem_reads : ∀ file, file ∈ indexing.reads ↔ file ∈ u.files indexing.view
  mem_probed : ∀ file ∈ u.probes indexing.view, file ∈ indexing.probed

/-! ## What one step can do -/

inductive History.Effect (u : TranslationUnit) (s : History) :
    Event → History → Prop
  | advance (nanoseconds : Nat) :
      Effect u s (.advance nanoseconds) { s with now := s.now + nanoseconds }
  | modify (file text : String) :
      Effect u s (.modify file text) (s.modify file text)
  | startIndexing (filepathId : Int) (was : s.progress = .idle) :
      Effect u s (.startIndexing filepathId) { s with
        progress := .parsing (.start s.contents filepathId s.second) }
  | read (file : String) (indexing : Indexing)
      (was : s.progress = .parsing indexing)
      (unread : file ∉ indexing.reads) (present : s.contents file ≠ none) :
      Effect u s (.read file) { s with
        progress := .parsing (indexing.read s.contents file) }
  | probe (file : String) (indexing : Indexing)
      (was : s.progress = .parsing indexing)
      (unasked : file ∉ indexing.probed) :
      Effect u s (.probe file) { s with
        progress := .parsing (indexing.probe s.contents file) }
  | finishParse (indexing : Indexing) (was : s.progress = .parsing indexing)
      (complete : indexing.Complete u) :
      Effect u s .finishParse { s with progress := .queued indexing }
  | failParse (indexing : Indexing) (was : s.progress = .parsing indexing) :
      Effect u s .failParse { s with progress := .idle }
  | storeBatch (indexing : Indexing) (was : s.progress = .queued indexing) :
      Effect u s .storeBatch
        { s.writeRow indexing.filepathId u.filepath indexing.time with
          progress := .idle
          last := some indexing }
  | loseBatch (indexing : Indexing) (was : s.progress = .queued indexing) :
      Effect u s .loseBatch { s with progress := .idle }
  | writeRow (filepathId : Int) (filepath : String) (createTime : Int)
      (past : createTime ≤ s.second) :
      Effect u s (.writeRow filepathId filepath createTime)
        (s.writeRow filepathId filepath createTime)

theorem History.effect_of_step {u : TranslationUnit} {s s' : History}
    {event : Event} (h : s.step u event = some s') : s.Effect u event s' := by
  cases event with
  | advance nanoseconds =>
      cases h
      exact .advance nanoseconds
  | modify file text =>
      cases h
      exact .modify file text
  | startIndexing filepathId =>
      simp only [step] at h
      split at h
      · rename_i hidle
        cases h
        exact .startIndexing filepathId hidle
      · contradiction
  | read file =>
      simp only [step] at h
      split at h
      · rename_i indexing hparsing
        simp only [Option.ite_none_right_eq_some] at h
        obtain ⟨⟨hunread, hexists⟩, h⟩ := h
        cases h
        exact .read file indexing hparsing hunread hexists
      · contradiction
  | probe file =>
      simp only [step] at h
      split at h
      · rename_i indexing hparsing
        simp only [Option.ite_none_right_eq_some] at h
        obtain ⟨hunasked, h⟩ := h
        cases h
        exact .probe file indexing hparsing hunasked
      · contradiction
  | finishParse =>
      simp only [step] at h
      split at h
      · rename_i indexing hparsing
        simp only [Option.ite_none_right_eq_some] at h
        obtain ⟨⟨hread, hincluded, hprobed⟩, h⟩ := h
        cases h
        exact .finishParse indexing hparsing
          ⟨fun file => ⟨hincluded file, hread file⟩, hprobed⟩
      · contradiction
  | failParse =>
      simp only [step] at h
      split at h
      · rename_i indexing hparsing
        cases h
        exact .failParse indexing hparsing
      · contradiction
  | storeBatch =>
      simp only [step] at h
      split at h
      · rename_i indexing hqueued
        cases h
        exact .storeBatch indexing hqueued
      · contradiction
  | loseBatch =>
      simp only [step] at h
      split at h
      · rename_i indexing hqueued
        cases h
        exact .loseBatch indexing hqueued
      · contradiction
  | writeRow filepathId filepath createTime =>
      simp only [step, Option.ite_none_right_eq_some] at h
      obtain ⟨hpast, h⟩ := h
      cases h
      exact .writeRow filepathId filepath createTime hpast

end Pview.Reindex
