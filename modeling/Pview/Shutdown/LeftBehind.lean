import Pview.Shutdown.Delivered

/-!
# Batches that are left behind

If no initial store task has a connection, a parse task that has one adds a
batch which nobody takes, and `do_indexing` returns: below the two thresholds
the main thread neither starts extra store tasks nor waits.
-/

namespace Pview.Shutdown

open Pview.Foundation
open Pview.Indexer
open Pview.MySQL
open Pview.Queue

variable {conf : Config} {connects : conf.Connects}

def noSymbols : ParseTask := ⟨[], [], 0, "", 0⟩

def markerBatch (names : TableNames) : Batch :=
  (noSymbols.batch [] []).map (Statement.text names)

theorem exists_sendIndexedResult_noSymbols (names : TableNames) (flag : Int) :
    ∃ fuel, noSymbols.sendIndexedResult names flag fuel =
      some (markerBatch names,
        noSymbols.clearCurrentTranslationUnitResult) := by
  have hsent : Converges (noSymbols.sendIndexedResult names flag)
      (markerBatch names, noSymbols.clearCurrentTranslationUnitResult) :=
    noSymbols.sendIndexedResult_of_cut names (.inr ⟨rfl, rfl⟩) (.nil _) (.nil _)
  obtain ⟨bound, hbound⟩ := hsent
  exact ⟨bound, hbound bound (le_refl _)⟩

section Run

def loaded (conf : Config) : State conf :=
  { State.initial conf with
    main := .joinParseTasks
    storeTasks := conf.numStoreTasks
    parseTasks := conf.numParseTasks }

theorem reach_loaded (hstore : 1 ≤ conf.numStoreTasks) :
    (doIndexing conf connects).ReachWhere Sends (loaded conf) := by
  have hstores : ∀ i ≤ conf.numStoreTasks,
      (doIndexing conf connects).ReachWhere Sends
        { State.initial conf with main := .addStoreTasks, storeTasks := i } := by
    intro i hi
    induction i with
    | zero => exact .step (a := .main) .init trivial (if_pos hstore)
    | succ i ih =>
        refine .step (a := .main) (ih (by omega)) trivial ?_
        exact if_pos hi
  have hparses : ∀ i ≤ conf.numParseTasks,
      (doIndexing conf connects).ReachWhere Sends
        { State.initial conf with
          main := .addParseTasks
          storeTasks := conf.numStoreTasks
          parseTasks := i } := by
    intro i hi
    induction i with
    | zero =>
        refine .step (a := .main) (hstores _ (le_refl _)) trivial ?_
        exact if_neg (lt_irrefl _)
    | succ i ih =>
        refine .step (a := .main) (ih (by omega)) trivial ?_
        exact if_pos hi
  refine .step (a := .main) (hparses _ (le_refl _)) trivial ?_
  exact if_neg (lt_irrefl _)

def noStorers (conf : Config) : conf.Storer → StorerPhase
  | .inl _ => .finished
  | .inr _ => .notStarted

theorem reach_noStorers (hstore : 1 ≤ conf.numStoreTasks)
    (hnone : ∀ i, connects.store (.inl i) = false) :
    (doIndexing conf connects).ReachWhere Sends
      { loaded conf with storers := noStorers conf } := by
  apply update_all (f := fun _ => .notStarted) (P := fun storers =>
    (doIndexing conf connects).ReachWhere Sends
      { loaded conf with storers := storers }) (reach_loaded hstore)
  intro storers c h hc
  cases c with
  | inl i =>
      refine .step (a := .startStore (.inl i)) h trivial ?_
      refine (if_pos ⟨hc, i.isLt⟩).trans ?_
      rw [hnone]
      rfl
  | inr i =>
      have hsame : noStorers conf (.inr i) = storers (.inr i) := hc.symm
      rwa [hsame, Function.update_eq_self]

def parsing (conf : Config) (counter : Nat)
    (parsers : conf.Parser → ParserPhase)
    (queue : IndexQueue conf.Parser conf.Storer) : State conf :=
  { loaded conf with
    storers := noStorers conf
    counter := counter
    parsers := parsers
    queue := queue }

def connected (connects : conf.Connects) (p : conf.Parser) : ParserPhase :=
  if connects.parse p then .fetching else .finished

theorem reach_connected (hstore : 1 ≤ conf.numStoreTasks)
    (hnone : ∀ i, connects.store (.inl i) = false) :
    (doIndexing conf connects).ReachWhere Sends
      (parsing conf 0 (connected connects) .empty) := by
  have hstart : (doIndexing conf connects).ReachWhere Sends
      (parsing conf 0 (fun _ => .notStarted) .empty) :=
    reach_noStorers hstore hnone
  apply update_all (P := fun parsers => (doIndexing conf connects).ReachWhere
    Sends (parsing conf 0 parsers .empty)) hstart
  intro parsers p h hp
  refine .step (a := .startParse p) h trivial ?_
  exact if_pos ⟨hp, p.isLt⟩

def pushed (conf : Config) : IndexQueue conf.Parser conf.Storer :=
  { IndexQueue.empty with
    stmts := [markerBatch conf.names]
    numStmts := (markerBatch conf.names).length
    added := [markerBatch conf.names] }

theorem pushed_of_empty (conf : Config) (p : conf.Parser) :
    (IndexQueue.empty : IndexQueue conf.Parser conf.Storer).step
      (.addStmts p (markerBatch conf.names) none) = some (pushed conf) := by
  have hfree : (IndexQueue.empty :
      IndexQueue conf.Parser conf.Storer).MutexFree := by
    constructor <;> simp [IndexQueue.empty]
  have hwoken : CondVar.notifyOne (IndexQueue.empty :
      IndexQueue conf.Parser conf.Storer).consumers none =
        some fun _ => .running := if_pos (by simp [IndexQueue.empty])
  simp only [IndexQueue.step, IndexQueue.addStmts, hwoken]
  rw [if_pos ⟨hfree, rfl⟩]
  rfl

variable {p : conf.Parser}

theorem reach_fetch {counter : Nat} {queue : IndexQueue conf.Parser conf.Storer}
    (hp : connects.parse p = true) (hqueue : queue.producers p = .running)
    (hmore : counter < conf.numCmds)
    (h : (doIndexing conf connects).ReachWhere Sends
      (parsing conf counter (connected connects) queue)) :
    (doIndexing conf connects).ReachWhere Sends
      (parsing conf (counter + 1)
        (Function.update (connected connects) p .indexing) queue) := by
  refine .step (a := .fetch p) h trivial ?_
  have hfetching : connected connects p = .fetching := by
    rw [connected, if_pos hp]
  refine (if_pos ⟨hfetching, hqueue⟩).trans ?_
  rw [if_pos (show (parsing conf counter (connected connects) queue).counter <
    conf.numCmds from hmore)]
  rfl

theorem update_connected (hp : connects.parse p = true) :
    Function.update (Function.update (connected connects) p .indexing) p
      .fetching = connected connects := by
  have hfetching : connected connects p = .fetching := by
    rw [connected, if_pos hp]
  rw [Function.update_idem, ← hfetching, Function.update_eq_self]

theorem reach_pushed (hstore : 1 ≤ conf.numStoreTasks)
    (hnone : ∀ i, connects.store (.inl i) = false)
    (hp : connects.parse p = true) :
    (doIndexing conf connects).ReachWhere Sends
      (parsing conf conf.numCmds (connected connects) (pushed conf)) := by
  have hcmds : 0 < conf.numCmds :=
    Nat.lt_of_lt_of_le (Nat.zero_lt_of_lt p.isLt) (Nat.min_le_right _ _)
  have hone : ∀ counter, 1 ≤ counter → counter ≤ conf.numCmds →
      (doIndexing conf connects).ReachWhere Sends
        (parsing conf counter (connected connects) (pushed conf)) := by
    intro counter hle
    induction counter, hle using Nat.le_induction with
    | base =>
        intro _
        obtain ⟨fuel, hfuel⟩ := exists_sendIndexedResult_noSymbols conf.names
          conf.flags.batchSize
        have hfetched := reach_fetch hp rfl hcmds (reach_connected hstore hnone)
        refine .step (a := .addStmts p noSymbols fuel none) hfetched trivial ?_
        refine (if_pos (Function.update_self _ _ _)).trans ?_
        rw [hfuel, Option.bind_some]
        refine (congrArg (Option.map _) (pushed_of_empty conf p)).trans ?_
        simp only [Option.map_some, parsing, State.setParser,
          update_connected hp]
    | succ counter hle ih =>
        intro hmore
        have hfetched := reach_fetch hp rfl hmore (ih (by omega))
        refine .step (a := .skipUnit p) hfetched trivial ?_
        refine (if_pos (Function.update_self _ _ _)).trans ?_
        simp only [parsing, State.setParser, update_connected hp]
  exact hone _ hcmds (le_refl _)

theorem reach_parsed (hstore : 1 ≤ conf.numStoreTasks)
    (hnone : ∀ i, connects.store (.inl i) = false)
    (hp : connects.parse p = true) :
    ∃ counter, conf.numCmds ≤ counter ∧
      (doIndexing conf connects).ReachWhere Sends
        (parsing conf counter (fun _ => .finished) (pushed conf)) := by
  apply update_all (P := fun parsers => ∃ counter, conf.numCmds ≤ counter ∧
    (doIndexing conf connects).ReachWhere Sends
      (parsing conf counter parsers (pushed conf)))
    ⟨conf.numCmds, le_refl _, reach_pushed hstore hnone hp⟩
  rintro parsers q ⟨counter, hle, h⟩ hq
  cases hconnects : connects.parse q with
  | true =>
      rw [connected, hconnects, if_pos rfl] at hq
      refine ⟨counter + 1, Nat.le_succ_of_le hle, ?_⟩
      refine .step (a := .fetch q) h trivial ?_
      refine (if_pos ⟨hq, rfl⟩).trans ?_
      have hdone : ¬(parsing conf counter parsers (pushed conf)).counter <
          conf.numCmds := Nat.not_lt.mpr hle
      rw [if_neg hdone]
      rfl
  | false =>
      rw [connected, hconnects, if_neg (by decide)] at hq
      refine ⟨counter, hle, ?_⟩
      rwa [← hq, Function.update_eq_self]

/-- The queue while the main thread is in `set_stop`, and after that. -/
def stopStored (conf : Config) : IndexQueue conf.Parser conf.Storer :=
  { pushed conf with
    stop := true
    stopping := 1 }

def stopped (conf : Config) : IndexQueue conf.Parser conf.Storer :=
  { stopStored conf with
    consumers := CondVar.notifyAll fun _ => .running
    producers := CondVar.notifyAll fun _ => .running
    stopping := 0
    stopped := true }

theorem stopped_of_stopStored (conf : Config) :
    (stopStored conf).step .notifyStop = some (stopped conf) := by
  have hfree : (stopStored conf).MutexFree := by
    constructor <;> simp [stopStored, pushed, IndexQueue.empty]
  exact if_pos ⟨hfree, Nat.one_pos⟩

theorem reach_returned (hstore : 1 ≤ conf.numStoreTasks)
    (hnone : ∀ i, connects.store (.inl i) = false)
    (hp : connects.parse p = true) :
    ∃ counter, (doIndexing conf connects).ReachWhere Sends
      { parsing conf counter (fun _ => .finished) (stopped conf) with
        main := .returned } := by
  obtain ⟨counter, -, hparsed⟩ := reach_parsed hstore hnone hp
  refine ⟨counter, ?_⟩
  have hjoined : (doIndexing conf connects).ReachWhere Sends
      { parsing conf counter (fun _ => .finished) (pushed conf) with
        main := .storeStop } :=
    .step (a := .main) hparsed trivial (if_pos fun _ => rfl)
  have hstored : (doIndexing conf connects).ReachWhere Sends
      { parsing conf counter (fun _ => .finished) (stopStored conf) with
        main := .notifyStop } := .step (a := .main) hjoined trivial rfl
  have hstopped : (doIndexing conf connects).ReachWhere Sends
      { parsing conf counter (fun _ => .finished) (stopped conf) with
        main := .checkNumStmts } :=
    .step (a := .main) hstored trivial
      (congrArg (Option.map _) (stopped_of_stopStored conf))
  -- One statement is below both thresholds.
  have hchecked : (doIndexing conf connects).ReachWhere Sends
      { parsing conf counter (fun _ => .finished) (stopped conf) with
        main := .pollNumStmts } := .step (a := .main) hstopped trivial rfl
  have hpolled : (doIndexing conf connects).ReachWhere Sends
      { parsing conf counter (fun _ => .finished) (stopped conf) with
        main := .joinStoreTasks } :=
    .step (a := .main) hchecked trivial rfl
  have hextra : (doIndexing conf connects).ReachWhere Sends
      { parsing conf counter (fun _ => .finished) (stopped conf) with
        main := .joinExtraTasks } :=
    .step (a := .main) hpolled trivial (if_pos fun _ => rfl)
  refine .step (a := .main) hextra trivial (if_pos ?_)
  exact fun i hi => absurd hi (Nat.not_lt_zero _)

end Run

/--
Every batch is taken and its first statement sent when `do_indexing` returns, in
every run, exactly when one of the initial store tasks has a connection, or no
parse task has one; without initial store tasks `do_indexing` does not return.
-/
theorem doIndexing_delivers_iff (conf : Config) (connects : conf.Connects) :
    (∀ s, (doIndexing conf connects).ReachWhere Sends s →
      s.main = .returned → s.Delivered) ↔
    (∃ i, connects.store (.inl i) = true) ∨
      (∀ p, connects.parse p = false) ∨ conf.numStoreTasks = 0 := by
  constructor
  · intro hall
    by_contra hnone
    simp only [not_or, not_exists, not_forall, Bool.not_eq_true,
      Bool.not_eq_false] at hnone
    obtain ⟨hstore, ⟨p, hp⟩, hpos⟩ := hnone
    obtain ⟨counter, hreach⟩ := reach_returned (Nat.one_le_iff_ne_zero.mpr hpos)
      hstore hp
    have hempty := (hall _ hreach rfl).empty
    contradiction
  · intro hcond s h hreturned
    have hinv := State.Inv.of_reachWhere h
    apply hinv.delivered hreturned
    rcases hcond with ⟨i, hi⟩ | hparse | hzero
    · exact hinv.empty_of_connects hreturned hi
    · exact hinv.empty_of_silent hparse
    · have hasserted := hinv.joined.asserted (by rw [hreturned]; decide)
      omega

def oneTask : Config := ⟨1, 1, 1, ⟨"f_1", "d_1", "c_1"⟩, {}⟩

/-- One parse task indexes one unit, and the store task has no connection. -/
theorem doIndexing_leaves_batch :
    ¬∀ (conf : Config) (connects : conf.Connects) (s : State conf),
      (doIndexing conf connects).Reachable s → s.main = .returned →
        s.Delivered := by
  intro hall
  have hrun : ((doIndexing oneTask ⟨fun _ => true, fun _ => false⟩).run
      (.initial oneTask)
      [.main, .main, .main, .main, .main, .startStore (.inl ⟨0, by decide⟩),
        .startParse ⟨0, by decide⟩, .fetch ⟨0, by decide⟩,
        .addStmts ⟨0, by decide⟩ noSymbols 1 none, .fetch ⟨0, by decide⟩,
        .main, .main, .main, .main, .main, .main, .main]).map (fun s =>
      (s.main, s.queue.stmts.length)) = some (.returned, 1) := by
    decide +kernel
  obtain ⟨s, hs, hstate⟩ := Option.map_eq_some_iff.mp hrun
  rw [Prod.mk.injEq] at hstate
  have hempty := (hall _ _ s (.of_run hs) hstate.1).empty
  rw [hempty] at hstate
  exact absurd hstate.2 (by decide)

end Pview.Shutdown
