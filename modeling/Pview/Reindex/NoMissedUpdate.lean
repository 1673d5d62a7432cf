import Pview.Reindex.EditHistory

/-!
# No missed update

A modification that a run of the check could miss has the second in which an
indexing started.  Outside of those seconds a file that differs from what the
last stored indexing found is strictly newer than the stored time.  The check
comes across it, or across a file that hides it, unless a file that is not
included appeared where the indexing had asked for it in vain.
-/

namespace Pview.Reindex

open Pview.Foundation
open Pview.MySQL

/-- The check asks for the unit whenever a file that its last stored indexing
read has been modified since and the main file still exists. -/
def History.MissesNothing (u : TranslationUnit) (s : History) : Prop :=
  ∀ indexing answered analysis, s.last = some indexing →
    indexing.stale ≠ [] → s.contents u.mainFile ≠ none →
    History.Analyzes u s analysis → s.needReindex u answered analysis = true

/-! ## What stays true of an indexing -/

variable {u : TranslationUnit} {s : History}

/-- The rows of the main file are not later than the indexing, and a file that
differs from what it found has a later second. -/
structure Indexing.Fresh (u : TranslationUnit) (s : History)
    (indexing : Indexing) : Prop where
  started : indexing.time ≤ s.second
  unchanged : ∀ file ∈ indexing.reads, file ∉ indexing.stale →
    s.contents file = indexing.view file
  stale : ∀ file ∈ indexing.stale,
    file ∈ indexing.reads ∧ indexing.time < s.mtime file
  created : ∀ file, indexing.view file = none → s.contents file ≠ none →
    indexing.time < s.mtime file
  present : ∀ file, s.contents file = none → indexing.view file = none
  rows : ∀ row ∈ s.filepaths, row.filepath = u.filepath →
    ∀ time, row.createTime = some time → (time : Int) ≤ indexing.time

theorem Indexing.Fresh.frame {s' : History} {indexing : Indexing}
    (h : indexing.Fresh u s) (hcontents : s'.contents = s.contents)
    (hmtime : s'.mtime = s.mtime) (hrows : s'.filepaths = s.filepaths)
    (hsecond : s.second ≤ s'.second) : indexing.Fresh u s' where
  started := h.started.trans hsecond
  unchanged := by simpa [hcontents] using h.unchanged
  stale := by simpa [hmtime] using h.stale
  created := by simpa [hcontents, hmtime] using h.created
  present := by simpa [hcontents] using h.present
  rows := by simpa [hrows] using h.rows

theorem Indexing.Fresh.row {indexing : Indexing} (h : indexing.Fresh u s)
    (filepathId : Int) {filepath : String} {createTime : Int}
    (hearly : filepath = u.filepath → createTime ≤ indexing.time) :
    indexing.Fresh u (s.writeRow filepathId filepath createTime) where
  started := h.started
  unchanged := h.unchanged
  stale := h.stale
  created := h.created
  present := h.present
  rows := by
    intro row hrow hpath time htime
    rcases mem_replaceFilepath hrow with hold | rfl
    · exact h.rows row hold hpath time htime
    · rw [fromUnixtime_eq_some htime]
      exact hearly hpath

theorem Indexing.Fresh.touch {indexing : Indexing} (h : indexing.Fresh u s)
    (hmtime : ∀ file, s.mtime file ≤ s.second) (file text : String)
    (hlate : file ∈ indexing.reads ∨ s.contents file = none →
      indexing.time < s.second) :
    (indexing.touch file).Fresh u (s.modify file text) where
  started := by
    rw [touch_time]
    exact h.started
  unchanged := by
    intro f hf hstale
    rw [touch_reads] at hf
    rw [mem_touch_stale, not_or] at hstale
    have hne : f ≠ file := by
      rintro rfl
      exact hstale.1 ⟨rfl, hf⟩
    simpa [History.modify, hne] using h.unchanged f hf hstale.2
  stale := by
    intro f hf
    rw [mem_touch_stale] at hf
    rw [touch_reads, touch_time]
    by_cases hfile : f = file
    · subst hfile
      have hread : f ∈ indexing.reads := by
        rcases hf with ⟨-, hread⟩ | hold
        · exact hread
        · exact (h.stale f hold).1
      simpa [History.modify, hread] using hlate (.inl hread)
    · have hold := hf.resolve_left fun hnew => hfile hnew.1
      simpa [History.modify, hfile] using h.stale f hold
  created := by
    intro f hview hcontents
    rw [touch_view] at hview
    rw [touch_time]
    by_cases hfile : f = file
    · subst hfile
      simp only [History.modify, Function.update_self]
      by_cases hnew : s.contents f = none
      · exact hlate (.inr hnew)
      · exact (h.created f hview hnew).trans_le (hmtime f)
    · simp only [History.modify, Function.update_of_ne hfile] at hcontents ⊢
      exact h.created f hview hcontents
  present := by
    intro f hcontents
    rw [touch_view]
    by_cases hfile : f = file
    · subst hfile
      simp [History.modify] at hcontents
    · simp only [History.modify, Function.update_of_ne hfile] at hcontents
      exact h.present f hcontents
  rows := by
    rw [touch_time]
    exact h.rows

theorem Indexing.Fresh.start (filepathId : Int)
    (hrows : ∀ row ∈ s.filepaths, ∀ time, row.createTime = some time →
      (time : Int) ≤ s.second) :
    (Indexing.start s.contents filepathId s.second).Fresh u s where
  started := le_rfl
  unchanged := by simp [Indexing.start]
  stale := by simp [Indexing.start]
  created := fun _ hview hcontents => absurd hview hcontents
  present := fun _ hcontents => hcontents
  rows := fun row hrow _ => hrows row hrow

theorem Indexing.Fresh.read {indexing : Indexing} (h : indexing.Fresh u s)
    {file : String} (hexists : s.contents file ≠ none) :
    (indexing.read s.contents file).Fresh u s where
  started := h.started
  unchanged := by
    intro f hf hstale
    by_cases hfile : f = file
    · simp [Indexing.read, hfile]
    · simp only [Indexing.read, List.mem_cons, hfile, false_or] at hf
      simpa [Indexing.read, hfile] using h.unchanged f hf hstale
  stale := by
    intro f hf
    obtain ⟨hread, hlater⟩ := h.stale f hf
    exact ⟨List.mem_cons_of_mem file hread, hlater⟩
  created := by
    intro f hview hcontents
    by_cases hfile : f = file
    · simp [Indexing.read, hfile, hexists] at hview
    · exact h.created f (by simpa [Indexing.read, hfile] using hview) hcontents
  present := by
    intro f hcontents
    by_cases hfile : f = file
    · rw [hfile] at hcontents
      contradiction
    · simpa [Indexing.read, hfile] using h.present f hcontents
  rows := h.rows

theorem Indexing.Fresh.probe {indexing : Indexing} (h : indexing.Fresh u s)
    (file : String) : (indexing.probe s.contents file).Fresh u s where
  started := h.started
  unchanged := by
    intro f hf hstale
    rw [h.unchanged f hf hstale]
    unfold Indexing.probe
    split
    · rfl
    · rename_i hunread
      have hfile : f ≠ file := by
        rintro rfl
        exact hunread hf
      exact (Function.update_of_ne hfile _ _).symm
  stale := h.stale
  created := by
    intro f hview hcontents
    unfold Indexing.probe at hview
    split at hview
    · exact h.created f hview hcontents
    · by_cases hfile : f = file
      · simp [hfile] at hview
        exact absurd (hfile ▸ hview) hcontents
      · exact h.created f (by simpa [hfile] using hview) hcontents
  present := by
    intro f hcontents
    unfold Indexing.probe
    split
    · exact h.present f hcontents
    · by_cases hfile : f = file
      · simpa [hfile] using hfile ▸ hcontents
      · simpa [hfile] using h.present f hcontents
  rows := h.rows

/-! ## Every run -/

/-- While the clock still shows the second in which the last stored indexing
or the one under way started, no file it has read is modified and no file is
created; and no other write gives the main file a time after that second. -/
def Undisturbed (u : TranslationUnit) (s : History) : Event → Prop
  | .modify file _ => ∀ indexing ∈ s.indexings,
      file ∈ indexing.reads ∨ s.contents file = none →
        indexing.time < s.second
  | .writeRow _ filepath createTime => filepath = u.filepath →
      ∀ indexing ∈ s.indexings, createTime ≤ indexing.time
  | _ => True

theorem Indexing.Complete.touch {indexing : Indexing} (h : indexing.Complete u)
    (file : String) : (indexing.touch file).Complete u where
  mem_reads := by simpa using h.mem_reads
  mem_probed := by simpa using h.mem_probed

structure History.Inv (u : TranslationUnit) (s : History) : Prop where
  mtimes : ∀ file, s.mtime file ≤ s.second
  rows : ∀ row ∈ s.filepaths, ∀ time, row.createTime = some time →
    (time : Int) ≤ s.second
  fresh : ∀ indexing ∈ s.indexings, indexing.Fresh u s
  last : ∀ indexing, s.last = some indexing → indexing.Complete u
  queued : ∀ indexing, s.progress = .queued indexing → indexing.Complete u

theorem History.mem_indexings {indexing : Indexing} :
    indexing ∈ s.indexings ↔
      s.last = some indexing ∨ s.progress.indexing? = some indexing := by
  simp [indexings]

private theorem second_advance (s : History) (nanoseconds : Nat) :
    s.second ≤ { s with now := s.now + nanoseconds : History }.second := by
  change (s.now : Int) / 10 ^ 9 ≤ ((s.now + nanoseconds : Nat) : Int) / 10 ^ 9
  omega

private theorem mtimes_modify (h : ∀ file, s.mtime file ≤ s.second)
    (file text : String) (f : String) :
    (s.modify file text).mtime f ≤ (s.modify file text).second := by
  change Function.update s.mtime file s.second f ≤ s.second
  by_cases hfile : f = file
  · rw [hfile, Function.update_self]
  · rw [Function.update_of_ne hfile]
    exact h f

private theorem rows_writeRow
    (h : ∀ row ∈ s.filepaths, ∀ time, row.createTime = some time →
      (time : Int) ≤ s.second)
    (filepathId : Int) (filepath : String) {createTime : Int}
    (hpast : createTime ≤ s.second) :
    ∀ row ∈ (s.writeRow filepathId filepath createTime).filepaths, ∀ time,
      row.createTime = some time → (time : Int) ≤ s.second := by
  intro row hrow time htime
  rcases mem_replaceFilepath hrow with hold | rfl
  · exact h row hold time htime
  · rw [fromUnixtime_eq_some htime]
    exact hpast

theorem History.mem_indexings_modify {file text : String}
    {indexing : Indexing} (h : indexing ∈ (s.modify file text).indexings) :
    ∃ old ∈ s.indexings, indexing = old.touch file := by
  rw [mem_indexings] at h
  rcases h with hlast | hprogress
  · obtain ⟨old, hold, rfl⟩ := Option.map_eq_some_iff.mp hlast
    exact ⟨old, mem_indexings.2 (.inl hold), rfl⟩
  · cases hold : s.progress with
    | idle =>
        simp [modify, hold, Progress.touch, Progress.indexing?] at hprogress
    | parsing old =>
        simp only [modify, hold, Progress.touch, Progress.indexing?,
          Option.some.injEq] at hprogress
        exact ⟨old, mem_indexings.2 (.inr (by rw [hold]; rfl)), hprogress.symm⟩
    | queued old =>
        simp only [modify, hold, Progress.touch, Progress.indexing?,
          Option.some.injEq] at hprogress
        exact ⟨old, mem_indexings.2 (.inr (by rw [hold]; rfl)), hprogress.symm⟩

theorem History.Inv.modify (h : s.Inv u) {file text : String}
    (hok : Undisturbed u s (.modify file text)) :
    (s.modify file text).Inv u where
  mtimes := mtimes_modify h.mtimes file text
  rows := h.rows
  fresh := by
    intro indexing hindexing
    obtain ⟨old, hold, rfl⟩ := mem_indexings_modify hindexing
    exact (h.fresh old hold).touch h.mtimes file text (hok old hold)
  last := by
    intro indexing hlast
    obtain ⟨old, hold, rfl⟩ := Option.map_eq_some_iff.mp hlast
    exact (h.last old hold).touch file
  queued := by
    intro indexing hqueued
    cases hold : s.progress with
    | idle => simp [History.modify, hold, Progress.touch] at hqueued
    | parsing old => simp [History.modify, hold, Progress.touch] at hqueued
    | queued old =>
        simp only [History.modify, hold, Progress.touch,
          Progress.queued.injEq] at hqueued
        rw [← hqueued]
        exact (h.queued old hold).touch file

theorem History.Inv.writeRow (h : s.Inv u) (filepathId : Int)
    {filepath : String} {createTime : Int} (hpast : createTime ≤ s.second)
    (hok : Undisturbed u s (.writeRow filepathId filepath createTime)) :
    (s.writeRow filepathId filepath createTime).Inv u where
  mtimes := h.mtimes
  rows := rows_writeRow h.rows filepathId filepath hpast
  fresh := fun indexing hindexing =>
    (h.fresh indexing hindexing).row filepathId fun hpath =>
      hok hpath indexing hindexing
  last := h.last
  queued := h.queued

theorem History.Inv.frame {s' : History} (h : s.Inv u)
    (hcontents : s'.contents = s.contents) (hmtime : s'.mtime = s.mtime)
    (hrows : s'.filepaths = s.filepaths) (hsecond : s.second ≤ s'.second)
    (hlast : s'.last = s.last)
    (hfresh : ∀ indexing, s'.progress.indexing? = some indexing →
      indexing.Fresh u s)
    (hqueued : ∀ indexing, s'.progress = .queued indexing →
      indexing.Complete u) : s'.Inv u where
  mtimes := fun file => by
    rw [hmtime]
    exact (h.mtimes file).trans hsecond
  rows := by
    rw [hrows]
    exact fun row hrow time htime => (h.rows row hrow time htime).trans hsecond
  fresh := by
    intro indexing hindexing
    rw [mem_indexings, hlast] at hindexing
    refine Indexing.Fresh.frame ?_ hcontents hmtime hrows hsecond
    rcases hindexing with hold | hprogress
    · exact h.fresh indexing (mem_indexings.2 (.inl hold))
    · exact hfresh indexing hprogress
  last := by
    rw [hlast]
    exact h.last
  queued := hqueued

theorem History.Inv.step {s' : History} {event : Event} (h : s.Inv u)
    (hok : Undisturbed u s event) (hstep : s.step u event = some s') :
    s'.Inv u := by
  have hfresh : ∀ indexing, s.progress.indexing? = some indexing →
      indexing.Fresh u s := fun indexing hprogress =>
    h.fresh indexing (mem_indexings.2 (.inr hprogress))
  cases History.effect_of_step hstep with
  | advance nanoseconds =>
      exact h.frame rfl rfl rfl (second_advance s nanoseconds) rfl hfresh
        h.queued
  | modify file text => exact h.modify hok
  | startIndexing filepathId =>
      refine h.frame rfl rfl rfl le_rfl rfl ?_ (by simp)
      intro indexing hindexing
      cases hindexing
      exact .start filepathId h.rows
  | read file old was _ hexists =>
      refine h.frame rfl rfl rfl le_rfl rfl ?_ (by simp)
      intro indexing hindexing
      cases hindexing
      exact (hfresh old (by rw [was]; rfl)).read hexists
  | probe file old was _ =>
      refine h.frame rfl rfl rfl le_rfl rfl ?_ (by simp)
      intro indexing hindexing
      cases hindexing
      exact (hfresh old (by rw [was]; rfl)).probe file
  | finishParse old was complete =>
      refine h.frame rfl rfl rfl le_rfl rfl ?_ ?_
      · intro indexing hindexing
        cases hindexing
        exact hfresh old (by rw [was]; rfl)
      · intro indexing hindexing
        cases hindexing
        exact complete
  | failParse =>
      exact h.frame rfl rfl rfl le_rfl rfl (by simp [Progress.indexing?])
        (by simp)
  | storeBatch old was =>
      have hold := hfresh old (by rw [was]; rfl)
      constructor
      · exact h.mtimes
      · exact rows_writeRow h.rows old.filepathId u.filepath hold.started
      · intro indexing hindexing
        rw [mem_indexings] at hindexing
        simp only [Progress.indexing?, Option.some.injEq, reduceCtorEq,
          or_false] at hindexing
        rw [← hindexing]
        exact (hold.row old.filepathId fun _ => le_rfl).frame rfl rfl rfl
          le_rfl
      · intro indexing hlast
        cases hlast
        exact h.queued old was
      · simp
  | loseBatch =>
      exact h.frame rfl rfl rfl le_rfl rfl (by simp [Progress.indexing?])
        (by simp)
  | writeRow filepathId filepath createTime past =>
      exact h.writeRow filepathId past hok

theorem History.Inv.of_reachWhere
    (h : (editHistory u).ReachWhere (Undisturbed u) s) : s.Inv u := by
  apply System.ReachWhere.invariant (I := History.Inv u) _ _ h
  · constructor <;> simp [editHistory, init, History.second, indexings,
      Progress.indexing?]
  · intro s s' event hs hok hstep
    exact hs.step hok hstep

/-! ## No missed update -/

/-- Every file that the last stored indexing asked for in vain and that exists
now is included now. -/
def History.ProbesKnown (u : TranslationUnit) (s : History) : Prop :=
  ∀ indexing, s.last = some indexing → ∀ file ∈ indexing.probed,
    indexing.view file = none → s.contents file ≠ none →
    file ∈ u.files s.contents

/-- Once a file has changed under a complete indexing, an analysis comes across
a file with a later second: that one, or one that hides it. -/
theorem Indexing.exists_later {indexing : Indexing}
    (hdecide : u.ReadsDecide) (hfresh : indexing.Fresh u s)
    (hcomplete : indexing.Complete u)
    (hprobes : ∀ file ∈ indexing.probed, indexing.view file = none →
      s.contents file ≠ none → file ∈ u.files s.contents)
    {file : String} (hstale : file ∈ indexing.stale) :
    ∃ f ∈ u.files s.contents, indexing.time < s.mtime f := by
  by_contra hnone
  push Not at hnone
  -- no file included now has been created since the indexing
  have hold : ∀ f ∈ u.files s.contents, indexing.view f = none →
      s.contents f = none := by
    intro f hf hview
    by_contra hnew
    exact absurd (hfresh.created f hview hnew) (not_lt.mpr (hnone f hf))
  obtain ⟨hread, hlater⟩ := hfresh.stale file hstale
  have hfile : file ∈ u.files s.contents := by
    refine hdecide indexing.view s.contents hfresh.present ?_ ?_ file
      ((hcomplete.mem_reads file).1 hread)
    · intro f hf
      refine ⟨hold f hf, fun hincluded => ?_⟩
      have hfresh' : f ∉ indexing.stale := fun hf' =>
        absurd (hfresh.stale f hf').2 (not_lt.mpr (hnone f hf))
      exact (hfresh.unchanged f ((hcomplete.mem_reads f).2 hincluded)
        hfresh').symm
    · intro f hf hview
      by_contra hnew
      have hincluded : f ∈ u.files s.contents :=
        hprobes f (hcomplete.mem_probed f hf) hview hnew
      exact hnew (hold f hincluded hview)
  exact absurd hlater (not_lt.mpr (hnone file hfile))

private theorem lastMtime_le {indexing : Indexing} (h : indexing.Fresh u s)
    {answered : Bool}
    (hpos : 0 < getFileLastMtime answered s.filepaths u.filepath) :
    getFileLastMtime answered s.filepaths u.filepath ≤ indexing.time := by
  obtain ⟨row, hrow, hpath, time, htime, hle⟩ :=
    exists_row_of_getFileLastMtime hpos
  exact hle.trans (h.rows row hrow hpath time htime)

/-- In a run that leaves the second of each indexing undisturbed, a
modification of a file that the last stored indexing read is not missed, as
long as the answers it got for other files still hold. -/
theorem checkNeedReindex_of_stale (u : TranslationUnit)
    (hdecide : u.ReadsDecide) {s : History}
    (h : (editHistory u).ReachWhere (Undisturbed u) s)
    (hprobes : s.ProbesKnown u) : s.MissesNothing u := by
  intro indexing answered analysis hlast hstale hmain hanalyzes
  have hinv := History.Inv.of_reachWhere h
  have hfresh := hinv.fresh indexing (History.mem_indexings.2 (.inl hlast))
  have hcomplete := hinv.last indexing hlast
  obtain ⟨file, hfile⟩ := List.exists_mem_of_ne_nil _ hstale
  obtain ⟨f, hf, hlater⟩ := Indexing.exists_later hdecide hfresh hcomplete
    (hprobes indexing hlast) hfile
  rw [History.needReindex, Option.isSome_iff_ne_none.mpr hmain,
    checkNeedReindex_iff]
  by_cases hpos : 0 < getFileLastMtime answered s.filepaths u.filepath
  · have hle := lastMtime_le hfresh hpos
    right
    rcases List.mem_cons.mp hf with rfl | hincluded
    · left
      omega
    · right
      rintro mtimes rfl
      rw [hanalyzes]
      exact ⟨s.mtime f, List.mem_map_of_mem hincluded, by omega⟩
  · left
    omega

/-- `#if !__has_include("b.h")` around `#include "a.h"`. -/
def headerUnit : TranslationUnit where
  mainFile := "/p/main.cc"
  filepath := "main.cc"
  includes := fun contents =>
    if contents "/p/main.cc" = some "#if !__has_include(\"b.h\")\n" ∧
        contents "/p/b.h" = none then ["/p/a.h"]
    else []
  probes := fun contents =>
    if contents "/p/main.cc" = some "#if !__has_include(\"b.h\")\n" then
      ["/p/b.h"]
    else []

private theorem headerUnit_readsDecide : headerUnit.ReadsDecide := by
  intro before after _ hreads hprobes file hfile
  have hmain := (hreads "/p/main.cc" List.mem_cons_self).2 List.mem_cons_self
  simp only [TranslationUnit.files, headerUnit, hmain] at hfile hprobes ⊢
  split at hfile
  · rename_i hincludes
    have habsent : after "/p/b.h" = none :=
      hprobes "/p/b.h" (by simp [hincludes.1]) hincludes.2
    simpa [hincludes.1, habsent] using hfile
  · simpa using Or.inl (List.mem_singleton.1 hfile)

def headerIndexing : List Event :=
  [.advance 100000000000,
    .modify "/p/main.cc" "#if !__has_include(\"b.h\")\n",
    .modify "/p/a.h" "int f();\n", .startIndexing 1, .read "/p/main.cc",
    .probe "/p/b.h", .read "/p/a.h", .finishParse, .storeBatch]

/-- The header is modified after so many more nanoseconds. -/
def headerEdit (delay : Nat) : List Event :=
  headerIndexing ++ [.advance delay, .modify "/p/a.h" "int g();\n"]

def headerHidden : List Event :=
  headerEdit 1000000000 ++ [.modify "/p/b.h" ""]

private theorem allowed_headerEdit {delay : Nat} (h : 1000000000 ≤ delay) :
    (editHistory headerUnit).Allowed (Undisturbed headerUnit) .init
      (headerEdit delay) := by
  simp [headerEdit, headerIndexing, System.Allowed, editHistory, History.step,
    Undisturbed, History.init, History.modify, History.writeRow,
    History.indexings, History.second, Progress.indexing?, Progress.touch,
    Indexing.start, Indexing.read, Indexing.probe, TranslationUnit.files,
    headerUnit]
  omega

/-- The header is modified in the next second. -/
theorem checkNeedReindex_of_stale_header :
    ∃ s, (editHistory headerUnit).run .init (headerEdit 1000000000) = some s ∧
      s.last.map (fun indexing => indexing.stale) = some ["/p/a.h"] ∧
      s.MissesNothing headerUnit := by
  have hedited : ((editHistory headerUnit).run .init
      (headerEdit 1000000000)).map
        (fun s => (s.last.map fun indexing => (indexing.stale, indexing.probed),
          s.contents "/p/b.h")) =
          some (some (["/p/a.h"], ["/p/b.h"]), none) := by
    decide +kernel
  obtain ⟨s, hrun, hs⟩ := Option.map_eq_some_iff.mp hedited
  simp only [Prod.mk.injEq] at hs
  obtain ⟨hlast, habsent⟩ := hs
  obtain ⟨indexing, hlast, hindexing⟩ := Option.map_eq_some_iff.mp hlast
  simp only [Prod.mk.injEq] at hindexing
  obtain ⟨hstale, hprobed⟩ := hindexing
  have hreach := System.ReachWhere.run .init (allowed_headerEdit le_rfl) hrun
  have hprobes : s.ProbesKnown headerUnit := by
    intro other hother file hfile _ hpresent
    cases hlast.symm.trans hother
    rw [hprobed, List.mem_singleton] at hfile
    exact absurd (hfile ▸ habsent) hpresent
  exact ⟨s, hrun, by simp [hlast, hstale], checkNeedReindex_of_stale headerUnit
    headerUnit_readsDecide hreach hprobes⟩

/-- The header is modified within the second in which it was read and stored:
the stored time is not older than the modification. -/
theorem checkNeedReindex_misses_header :
    ¬∀ s, (editHistory headerUnit).Reachable s →
      s.MissesNothing headerUnit := by
  intro hall
  have hmissed : ((editHistory headerUnit).run .init (headerEdit 0)).map
      (fun s => (s.last.map fun indexing => indexing.stale,
        s.contents "/p/main.cc", s.contents "/p/b.h", s.mtime "/p/a.h",
        s.needReindex headerUnit true (.done [100]))) =
          some (some ["/p/a.h"], some "#if !__has_include(\"b.h\")\n", none,
            100, false) := by
    decide +kernel
  obtain ⟨s, hrun, hs⟩ := Option.map_eq_some_iff.mp hmissed
  simp only [Prod.mk.injEq] at hs
  obtain ⟨hstale, hmain, habsent, hmtime, hskipped⟩ := hs
  obtain ⟨indexing, hlast, hstale⟩ := Option.map_eq_some_iff.mp hstale
  have hanalyzes : History.Analyzes headerUnit s (.done [100]) := by
    simp [History.Analyzes, headerUnit, hmain, habsent, hmtime]
  have hchecked := hall s (.of_run hrun) indexing true (.done [100]) hlast
    (by simp [hstale]) (by simp [headerUnit, hmain]) hanalyzes
  simp [hskipped] at hchecked

/-- The header is modified later, and hidden by one that is never included: the
check does not come across any of them. -/
theorem checkNeedReindex_misses_hidden :
    ∃ s, (editHistory headerUnit).ReachWhere (Undisturbed headerUnit) s ∧
      ¬s.MissesNothing headerUnit := by
  have hmissed : ((editHistory headerUnit).run .init headerHidden).map
      (fun s => (s.last.map fun indexing => indexing.stale,
        s.contents "/p/main.cc", s.contents "/p/b.h",
        s.needReindex headerUnit true (.done []))) =
          some (some ["/p/a.h"], some "#if !__has_include(\"b.h\")\n", some "",
            false) := by
    decide +kernel
  obtain ⟨s, hrun, hs⟩ := Option.map_eq_some_iff.mp hmissed
  simp only [Prod.mk.injEq] at hs
  obtain ⟨hstale, hmain, hhidden, hskipped⟩ := hs
  obtain ⟨indexing, hlast, hstale⟩ := Option.map_eq_some_iff.mp hstale
  have hallowed : (editHistory headerUnit).Allowed (Undisturbed headerUnit)
      .init headerHidden := by
    simp [headerHidden, headerEdit, headerIndexing, System.Allowed,
      editHistory, History.step, Undisturbed, History.init, History.modify,
      History.writeRow, History.indexings, History.second, Progress.indexing?,
      Progress.touch, Indexing.start, Indexing.read, Indexing.probe,
      Indexing.touch, TranslationUnit.files, headerUnit]
  refine ⟨s, .run .init hallowed hrun, fun hall => ?_⟩
  have hanalyzes : History.Analyzes headerUnit s (.done []) := by
    simp [History.Analyzes, headerUnit, hmain, hhidden]
  have hchecked := hall indexing true (.done []) hlast (by simp [hstale])
    (by simp [headerUnit, hmain]) hanalyzes
  simp [hskipped] at hchecked

end Pview.Reindex
