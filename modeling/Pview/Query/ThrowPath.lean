import Mathlib.Data.List.Perm.Basic
import Pview.Query.CalleeCaller

/-!
# The throw path query

`searchThrowpath` is the recursion behind `--throwpath`.  A caller without
rows is marked and passed over before its flag could be looked at; for any
other caller the flag is that of the first row, in the order in which the
server happens to answer.

The search is again an instance of `Foundation.DepthFirst`, whose route is now
reported with its last entry.
-/

namespace Pview.Query

open Pview.Foundation
open Pview.Foundation.DepthFirst
open Pview.MySQL

def queryFuncCallUsrQualifiedMightThrowUsingCallerUsr
    (table : List FuncCallRow) (callerUsr : String) :
    List (String × String × Int) :=
  (table.filter fun row => row.callerUsr = callerUsr).map fun row =>
    (row.usr, row.qualified, row.callerMightThrow)

def searchThrowpathLoop (table : List FuncCallRow)
    (recurse : SearchState → List (String × String) →
      Option (Bool × SearchState)) :
    SearchState → List (String × String) → Option (Bool × SearchState)
  | state, [] => some (false, state)
  | state, (callerUsr, callerQualified) :: rest =>
      if callerUsr ∈ state.searchedCallerUsr then
        searchThrowpathLoop table recurse state rest
      else
        let state := { state with
          searchedCallerUsr := insert callerUsr state.searchedCallerUsr }
        let calls :=
          queryFuncCallUsrQualifiedMightThrowUsingCallerUsr table callerUsr
        match calls with
        | [] => searchThrowpathLoop table recurse state rest
        | (_, _, callerThrow) :: _ =>
            if callerThrow ≠ 0 then
              some (true,
                { state with result := state.result ++ [callerQualified] })
            else
              match recurse state
                  (calls.map fun call => (call.1, call.2.1)) with
              | none => none
              | some (true, state) =>
                  some (true,
                    { state with result := state.result ++ [callerQualified] })
              | some (false, state) =>
                  searchThrowpathLoop table recurse state rest

/-- Depth first search of throwpath with at most `frames` nested calls. -/
def searchThrowpath (table : List FuncCallRow) :
    Nat → SearchState → List (String × String) → Option (Bool × SearchState)
  | 0, _, _ => none
  | frames + 1, state, callers =>
      searchThrowpathLoop table (searchThrowpath table frames) state callers

def doQueryThrowpath (conn : Option Index) (throwpath : String)
    (frames : Nat) : Option Report :=
  match conn with
  | none => some ⟨1, [.error
      "Fail to create mysql connection. Can't search throwpath."]⟩
  | some index =>
      let allCallerUsr :=
        queryFuncDefUsrUsingQualified index.funcDefinitions throwpath
      if allCallerUsr.isEmpty then
        some ⟨1, [.warning
          ("Cannot find USR using qualified name: " ++ throwpath)]⟩
      else
        (searchThrowpath index.funcCalls frames ⟨[], ∅⟩
            (rootCallers allCallerUsr throwpath)).map fun (_, state) =>
          if state.result.isEmpty then
            ⟨1, [.warning ("Cannot find throwpath from " ++ throwpath)]⟩
          else
            ⟨0, .info "---------- throwpath ---------" ::
              state.result.reverse.map .name ++
              [.info "---------- END ---------"]⟩

/-! ## The search as a depth-first search -/

def throwsFirst (table : List FuncCallRow) (callerUsr : String) : Bool :=
  match queryFuncCallUsrQualifiedMightThrowUsingCallerUsr table callerUsr with
  | [] => false
  | (_, _, callerThrow) :: _ => callerThrow ≠ 0

def throwReportOf (result : List String) (out : Found String String) :
    Bool × SearchState :=
  match out.route with
  | none => (false, ⟨result, out.visited⟩)
  | some route =>
      (true, ⟨result ++ (route.map Prod.snd).reverse, out.visited⟩)

private theorem query_map_eq (table : List FuncCallRow) (callerUsr : String) :
    (queryFuncCallUsrQualifiedMightThrowUsingCallerUsr table callerUsr).map
        (fun call => (call.1, call.2.1)) =
      queryFuncCallUsrQualifiedUsingCallerUsr table callerUsr := by
  rw [queryFuncCallUsrQualifiedMightThrowUsingCallerUsr, List.map_map]
  rfl

/-- Passing over a caller without rows needs no frame, descending to its empty
list of callees needs one, so the search proper is matched where it ends. -/
private theorem searchThrowpathLoop_of_scan (table : List FuncCallRow)
    {recurse : SearchState → List (String × String) →
      Option (Bool × SearchState)}
    {descend : Finset String → List (String × String) →
      Option (Found String String)}
    (hrecurse : ∀ result searched callers out,
      descend searched callers = some out →
        recurse ⟨result, searched⟩ callers = some (throwReportOf result out))
    (hnil : ∀ searched out, descend searched [] = some out →
      out = ⟨searched, none⟩)
    (result : List String) (searched : Finset String)
    (callers : List (String × String)) (out : Found String String)
    (hscan : scan (queryFuncCallUsrQualifiedUsingCallerUsr table)
      (throwsFirst table) descend searched callers = some out) :
    searchThrowpathLoop table recurse ⟨result, searched⟩ callers =
      some (throwReportOf result out) := by
  induction callers generalizing searched with
  | nil =>
      cases hscan
      rfl
  | cons caller rest ih =>
      obtain ⟨callerUsr, callerQualified⟩ := caller
      rw [scan] at hscan
      rw [searchThrowpathLoop]
      by_cases hmem : callerUsr ∈ searched
      · rw [if_pos hmem] at hscan ⊢
        exact ih searched hscan
      rw [if_neg hmem] at hscan ⊢
      have hquery := query_map_eq table callerUsr
      cases hcalls : queryFuncCallUsrQualifiedMightThrowUsingCallerUsr table
          callerUsr with
      | nil =>
          have hmiss : throwsFirst table callerUsr = false := by
            rw [throwsFirst, hcalls]
          rw [hcalls, List.map_nil] at hquery
          rw [if_neg (by simp [hmiss]), ← hquery] at hscan
          cases hbelow : descend (insert callerUsr searched) [] with
          | none => simp [hbelow] at hscan
          | some below =>
              obtain rfl := hnil _ _ hbelow
              rw [hbelow] at hscan
              exact ih _ hscan
      | cons call calls =>
          obtain ⟨usr, qualified, callerThrow⟩ := call
          have hthrows : throwsFirst table callerUsr =
              decide (callerThrow ≠ 0) := by
            rw [throwsFirst, hcalls]
          rw [hcalls] at hquery
          simp only [hthrows, decide_eq_true_eq] at hscan
          dsimp only
          by_cases hthrow : callerThrow ≠ 0
          · rw [if_pos hthrow] at hscan ⊢
            cases hscan
            rfl
          rw [if_neg hthrow] at hscan ⊢
          rw [hquery]
          cases hbelow : descend (insert callerUsr searched)
              (queryFuncCallUsrQualifiedUsingCallerUsr table callerUsr) with
          | none => simp [hbelow] at hscan
          | some below =>
              obtain ⟨searched', route⟩ := below
              rw [hbelow] at hscan
              rw [hrecurse result _ _ _ hbelow]
              cases route with
              | none => exact ih searched' hscan
              | some route =>
                  cases hscan
                  simp [throwReportOf]

theorem searchThrowpath_of_search (table : List FuncCallRow) (frames : Nat)
    (result : List String) (searched : Finset String)
    (callers : List (String × String)) (out : Found String String)
    (hsearch : search (queryFuncCallUsrQualifiedUsingCallerUsr table)
      (throwsFirst table) frames searched callers = some out) :
    searchThrowpath table frames ⟨result, searched⟩ callers =
      some (throwReportOf result out) := by
  induction frames generalizing result searched callers out with
  | zero => contradiction
  | succ frames ih =>
      refine searchThrowpathLoop_of_scan table ih ?_ result searched callers
        out hsearch
      intro searched out hnil
      cases runs_of_search hnil
      rfl

theorem converges_of_search {table : List FuncCallRow} {frames : Nat}
    {roots : List (String × String)} {out : Found String String}
    (hsearch : search (queryFuncCallUsrQualifiedUsingCallerUsr table)
      (throwsFirst table) frames ∅ roots = some out) (result : List String) :
    Converges (fun frames => searchThrowpath table frames ⟨result, ∅⟩ roots)
      (throwReportOf result out) :=
  ((search_mono ∅ roots).converges hsearch).of_forall fun frames out =>
    searchThrowpath_of_search table frames result ∅ roots out

theorem searchThrowpath_converges (table : List FuncCallRow)
    (roots : List (String × String)) (result : List String) :
    ∃ out : Found String String,
      Runs (queryFuncCallUsrQualifiedUsingCallerUsr table) (throwsFirst table)
        ∅ roots out ∧
      Converges (fun frames => searchThrowpath table frames ⟨result, ∅⟩ roots)
        (throwReportOf result out) := by
  obtain ⟨out, hconverges, hruns⟩ :=
    callSearch_converges table (throwsFirst table) roots
  exact ⟨out, hruns, hconverges.of_forall fun frames out =>
    searchThrowpath_of_search table frames result ∅ roots out⟩

/-! ## What is found -/

def CallerReached (table : List FuncCallRow) (roots : List (String × String))
    (u : String) : Prop :=
  ∃ root ∈ roots, CallReach table root.1 u

theorem throwsFirst_iff {table : List FuncCallRow} {u : String} :
    throwsFirst table u = true ↔
      ∃ row, (table.filter fun row => row.callerUsr = u).head? = some row ∧
        row.callerMightThrow ≠ 0 := by
  unfold throwsFirst queryFuncCallUsrQualifiedMightThrowUsingCallerUsr
  cases table.filter fun row => row.callerUsr = u with
  | nil => simp
  | cons row rows => simp

theorem exists_row_of_throwsFirst {table : List FuncCallRow} {u : String}
    (h : throwsFirst table u = true) :
    ∃ row ∈ table, row.callerUsr = u ∧ row.callerMightThrow ≠ 0 := by
  obtain ⟨row, hfirst, hthrow⟩ := throwsFirst_iff.mp h
  have hrow := List.mem_filter.mp (List.mem_of_head? hfirst)
  exact ⟨row, hrow.1, by simpa using hrow.2, hthrow⟩

private theorem searchThrowpath_found {table : List FuncCallRow}
    {roots : List (String × String)} {result : List String}
    {out : Found String String}
    (hruns : Runs (queryFuncCallUsrQualifiedUsingCallerUsr table)
      (throwsFirst table) ∅ roots out) :
    (throwReportOf result out).1 = true ↔
      ∃ u, CallerReached table roots u ∧ throwsFirst table u = true := by
  have hsome : (throwReportOf result out).1 = out.route.isSome := by
    cases hroute : out.route <;> simp [throwReportOf, hroute]
  rw [hsome, hruns.route_isSome_iff]
  simp only [live_iff_callReach, CallerReached]
  constructor
  · rintro ⟨root, hroot, u, hreach, hthrows⟩
    exact ⟨u, ⟨root, hroot, hreach⟩, hthrows⟩
  · rintro ⟨u, ⟨root, hroot, hreach⟩, hthrows⟩
    exact ⟨root, hroot, u, hreach, hthrows⟩

/-! ## One flag for each caller -/

def FlagsConsistent (table : List FuncCallRow) : Prop :=
  ∀ row ∈ table, ∀ row' ∈ table, row.callerUsr = row'.callerUsr →
    row.callerMightThrow = row'.callerMightThrow

theorem throwsFirst_iff_of_consistent {table : List FuncCallRow}
    (h : FlagsConsistent table) {u : String} :
    throwsFirst table u = true ↔
      ∃ row ∈ table, row.callerUsr = u ∧ row.callerMightThrow ≠ 0 := by
  constructor
  · exact exists_row_of_throwsFirst
  · rintro ⟨row, hrow, hcaller, hthrow⟩
    rw [throwsFirst_iff]
    cases hrows : table.filter fun row => row.callerUsr = u with
    | nil =>
        simp only [List.filter_eq_nil_iff, decide_eq_true_eq] at hrows
        exact absurd hcaller (hrows row hrow)
    | cons first rest =>
        have hfirst : first ∈ table ∧ first.callerUsr = u := by
          have hmem : first ∈ table.filter fun row => row.callerUsr = u := by
            rw [hrows]
            exact List.mem_cons_self
          simpa using hmem
        refine ⟨first, rfl, ?_⟩
        rw [h first hfirst.1 row hrow (hfirst.2.trans hcaller.symm)]
        exact hthrow

/-- The printed names belong to pairwise different functions, from a root on
each called by the one before, the last of which might throw. -/
def IsThrowpath (table : List FuncCallRow) (roots : List (String × String))
    (names : List String) : Prop :=
  ∃ chain : List (String × String), names = chain.map Prod.snd ∧
    (chain.map Prod.fst).Nodup ∧
    (∃ root ∈ roots, chain.head? = some root) ∧
    (chain.IsChain fun caller callee => ∃ row ∈ table,
      row.callerUsr = caller.1 ∧ row.usr = callee.1 ∧
        row.qualified = callee.2) ∧
    ∃ last, chain.getLast? = some last ∧
      ∃ row ∈ table, row.callerUsr = last.1 ∧ row.callerMightThrow ≠ 0

theorem isThrowpath_of_leftmost {table : List FuncCallRow}
    {roots route : List (String × String)}
    (h : LeftmostRoute (queryFuncCallUsrQualifiedUsingCallerUsr table)
      (throwsFirst table) ∅ roots route) :
    IsThrowpath table roots (route.map Prod.snd) := by
  refine ⟨route, rfl, h.nodup.1, ?_, ?_, ?_⟩
  · obtain ⟨root, hroot, below, rfl⟩ := h.head
    exact ⟨root, hroot, rfl⟩
  · refine h.isChain.imp fun caller callee hcall => ?_
    obtain ⟨row, hrow, hcaller, rfl⟩ := usr_mem_of_query hcall
    exact ⟨row, hrow, hcaller, rfl, rfl⟩
  · obtain ⟨last, hlast, hthrows⟩ := h.hit_getLast
    exact ⟨last, hlast, exists_row_of_throwsFirst hthrows⟩

/--
With one flag for each caller the search finds a caller that might throw
exactly when one is reached, and reports a chain of calls to it.
-/
theorem searchThrowpath_correct {table : List FuncCallRow}
    (h : FlagsConsistent table) (roots : List (String × String))
    (result : List String) :
    ∃ found state,
      Converges (fun frames => searchThrowpath table frames ⟨result, ∅⟩ roots)
        (found, state) ∧
      (found = true ↔ ∃ u, CallerReached table roots u ∧
        ∃ row ∈ table, row.callerUsr = u ∧ row.callerMightThrow ≠ 0) ∧
      (found = true → ∃ pushed, state.result = result ++ pushed ∧
        IsThrowpath table roots pushed.reverse) ∧
      (found = false → state.result = result) := by
  obtain ⟨out, hruns, hconverges⟩ :=
    searchThrowpath_converges table roots result
  refine ⟨(throwReportOf result out).1, (throwReportOf result out).2,
    hconverges, ?_, ?_, ?_⟩
  · simp only [searchThrowpath_found hruns, throwsFirst_iff_of_consistent h]
  · intro hfound
    cases hroute : out.route with
    | none => simp [throwReportOf, hroute] at hfound
    | some route =>
        refine ⟨(route.map Prod.snd).reverse, by simp [throwReportOf, hroute],
          ?_⟩
        rw [List.reverse_reverse]
        exact isThrowpath_of_leftmost ((hruns.route_iff route).1 hroute)
  · intro hfound
    cases hroute : out.route with
    | none => simp [throwReportOf, hroute]
    | some route => simp [throwReportOf, hroute] at hfound

def recursiveTable : List FuncCallRow :=
  [⟨1, 0, "c:@F@main", 0, "c:@F@helper", "helper", 1, 1⟩,
   ⟨2, 0, "c:@F@helper", 1, "c:@F@main", "main", 1, 2⟩]

theorem searchThrowpath_correct_recursive :
    ∃ found state,
      Converges (fun frames => searchThrowpath recursiveTable frames ⟨[], ∅⟩
        [("c:@F@main", "main")]) (found, state) ∧
      (found = true ↔ ∃ u,
        CallerReached recursiveTable [("c:@F@main", "main")] u ∧
        ∃ row ∈ recursiveTable, row.callerUsr = u ∧
          row.callerMightThrow ≠ 0) ∧
      (found = true → ∃ pushed, state.result = [] ++ pushed ∧
        IsThrowpath recursiveTable [("c:@F@main", "main")] pushed.reverse) ∧
      (found = false → state.result = []) :=
  searchThrowpath_correct (by unfold FlagsConsistent; decide) _ _

/-! ## Orders of the rows -/

/-- Whatever the order in which the rows are returned, the same is found. -/
def OrderIndependent (table : List FuncCallRow)
    (roots : List (String × String)) : Prop :=
  ∀ order₁ order₂, order₁.Perm table → order₂.Perm table →
    ∃ found state₁ state₂,
      Converges (fun frames => searchThrowpath order₁ frames ⟨[], ∅⟩ roots)
        (found, state₁) ∧
      Converges (fun frames => searchThrowpath order₂ frames ⟨[], ∅⟩ roots)
        (found, state₂)

/-- No order can show a flag, or every order must show one. -/
def OrderDecided (table : List FuncCallRow) (roots : List (String × String)) :
    Prop :=
  (∀ row ∈ table, CallerReached table roots row.callerUsr →
    row.callerMightThrow = 0) ∨
  ∃ u, CallerReached table roots u ∧ (∃ row ∈ table, row.callerUsr = u) ∧
    ∀ row ∈ table, row.callerUsr = u → row.callerMightThrow ≠ 0

private theorem callerReached_perm {table order : List FuncCallRow}
    (h : order.Perm table) (roots : List (String × String)) (u : String) :
    CallerReached order roots u ↔ CallerReached table roots u := by
  simp only [CallerReached, CallReach, h.mem_iff]

theorem searchThrowpath_returns (table : List FuncCallRow)
    (roots : List (String × String)) :
    ∃ found state, Converges (fun frames =>
      searchThrowpath table frames ⟨[], ∅⟩ roots) (found, state) := by
  obtain ⟨out, -, hconverges⟩ := searchThrowpath_converges table roots []
  exact ⟨_, _, hconverges⟩

private theorem found_iff_of_converges {table order : List FuncCallRow}
    (h : order.Perm table) {roots : List (String × String)} {found : Bool}
    {state : SearchState}
    (hfound : Converges (fun frames =>
      searchThrowpath order frames ⟨[], ∅⟩ roots) (found, state)) :
    found = true ↔
      ∃ u, CallerReached table roots u ∧ throwsFirst order u = true := by
  obtain ⟨out, hruns, hconverges⟩ := searchThrowpath_converges order roots []
  have heq : found = (throwReportOf [] out).1 :=
    congrArg Prod.fst (hfound.unique hconverges)
  rw [heq, searchThrowpath_found hruns]
  simp only [callerReached_perm h]

private theorem throwsFirst_of_all {table order : List FuncCallRow}
    (h : order.Perm table) {u : String}
    (hsome : ∃ row ∈ table, row.callerUsr = u)
    (hall : ∀ row ∈ table, row.callerUsr = u → row.callerMightThrow ≠ 0) :
    throwsFirst order u = true := by
  rw [throwsFirst_iff]
  cases hrows : order.filter fun row => row.callerUsr = u with
  | nil =>
      simp only [List.filter_eq_nil_iff, decide_eq_true_eq, h.mem_iff] at hrows
      obtain ⟨row, hrow, hcaller⟩ := hsome
      exact absurd hcaller (hrows row hrow)
  | cons first rest =>
      have hfirst : first ∈ order.filter fun row => row.callerUsr = u := by
        rw [hrows]
        exact List.mem_cons_self
      simp only [List.mem_filter, decide_eq_true_eq, h.mem_iff] at hfirst
      exact ⟨first, rfl, hall first hfirst.1 hfirst.2⟩

private def flagsLast (table : List FuncCallRow) : List FuncCallRow :=
  table.filter (fun row => row.callerMightThrow = 0) ++
    table.filter fun row => !decide (row.callerMightThrow = 0)

private theorem all_of_throwsFirst_flagsLast {table : List FuncCallRow}
    {u : String} (h : throwsFirst (flagsLast table) u = true) :
    ∀ row ∈ table, row.callerUsr = u → row.callerMightThrow ≠ 0 := by
  intro row hrow hcaller hzero
  obtain ⟨first, hfirst, hthrow⟩ := throwsFirst_iff.mp h
  -- the row without a flag stands in the first part
  have hmem : row ∈ (table.filter fun row => row.callerMightThrow = 0).filter
      fun row => row.callerUsr = u := by
    simp [hrow, hzero, hcaller]
  have hhead : first ∈ (table.filter fun row =>
      row.callerMightThrow = 0).filter fun row => row.callerUsr = u := by
    rw [flagsLast, List.filter_append, List.head?_append_of_ne_nil _
      (List.ne_nil_of_mem hmem)] at hfirst
    exact List.mem_of_head? hfirst
  simp only [List.mem_filter, decide_eq_true_eq] at hhead
  exact hthrow hhead.1.2

/--
The search looks at the flag of the first row only.  The order of the rows has
no influence exactly when no flag is reached, or all rows of some caller that
is reached carry one.
-/
theorem searchThrowpath_orderIndependent_iff (table : List FuncCallRow)
    (roots : List (String × String)) :
    OrderIndependent table roots ↔ OrderDecided table roots := by
  constructor
  · intro hsame
    rw [OrderDecided, or_iff_not_imp_left]
    intro hflag
    simp only [not_forall] at hflag
    obtain ⟨row, hrow, hreached, hthrow⟩ := hflag
    -- one order starts with the flag, the other one keeps flags to the end
    have hperm₁ : (row :: table.erase row).Perm table :=
      (List.perm_cons_erase hrow).symm
    have hperm₂ : (flagsLast table).Perm table :=
      List.filter_append_perm _ table
    obtain ⟨found, _, _, hfirst, hlast⟩ := hsame _ _ hperm₁ hperm₂
    have hfound : found = true := by
      rw [found_iff_of_converges hperm₁ hfirst]
      exact ⟨row.callerUsr, hreached, throwsFirst_iff.2 (by simp [hthrow])⟩
    rw [found_iff_of_converges hperm₂ hlast] at hfound
    obtain ⟨u, hu, hthrows⟩ := hfound
    have hall := all_of_throwsFirst_flagsLast hthrows
    obtain ⟨first, hfirst, hcaller, -⟩ := exists_row_of_throwsFirst hthrows
    exact ⟨u, hu, ⟨first, hperm₂.mem_iff.1 hfirst, hcaller⟩, hall⟩
  · intro hdecided order₁ order₂ hperm₁ hperm₂
    obtain ⟨found₁, state₁, hconverges₁⟩ := searchThrowpath_returns order₁ roots
    obtain ⟨found₂, state₂, hconverges₂⟩ := searchThrowpath_returns order₂ roots
    have hsame : found₁ = found₂ := by
      rw [Bool.eq_iff_iff, found_iff_of_converges hperm₁ hconverges₁,
        found_iff_of_converges hperm₂ hconverges₂]
      rcases hdecided with hnone | ⟨u, hu, hsome, hall⟩
      · have hmiss : ∀ order : List FuncCallRow, order.Perm table →
            ¬∃ u, CallerReached table roots u ∧ throwsFirst order u = true := by
          rintro order hperm ⟨u, hu, hthrows⟩
          obtain ⟨row, hrow, rfl, hthrow⟩ := exists_row_of_throwsFirst hthrows
          exact hthrow (hnone row (hperm.mem_iff.1 hrow) hu)
        exact iff_of_false (hmiss order₁ hperm₁) (hmiss order₂ hperm₂)
      · exact iff_of_true
          ⟨u, hu, throwsFirst_of_all hperm₁ hsome hall⟩
          ⟨u, hu, throwsFirst_of_all hperm₂ hsome hall⟩
    subst hsame
    exact ⟨found₁, state₁, state₂, hconverges₁, hconverges₂⟩

/-- A function of a header, indexed from two translation units. -/
def headerTable : List FuncCallRow :=
  [⟨1, 100, "c:@F@f", 1, "c:@F@g", "g", 1, 1⟩,
   ⟨2, 200, "c:@F@f", 0, "c:@F@g", "g", 1, 1⟩]

theorem searchThrowpath_depends_on_order :
    ¬OrderIndependent headerTable [("c:@F@f", "f")] := by
  intro hsame
  obtain ⟨found, state₁, state₂, hconverges₁, hconverges₂⟩ :=
    hsame headerTable headerTable.reverse (.refl _) headerTable.reverse_perm
  have hflagFirst : (search
      (queryFuncCallUsrQualifiedUsingCallerUsr headerTable)
      (throwsFirst headerTable) 2 ∅ [("c:@F@f", "f")]).map
        (fun out => (throwReportOf [] out).1) = some true := by rfl
  have hflagLast : (search
      (queryFuncCallUsrQualifiedUsingCallerUsr headerTable.reverse)
      (throwsFirst headerTable.reverse) 3 ∅ [("c:@F@f", "f")]).map
        (fun out => (throwReportOf [] out).1) = some false := by rfl
  obtain ⟨out₁, hsearch₁, hfound₁⟩ := Option.map_eq_some_iff.mp hflagFirst
  obtain ⟨out₂, hsearch₂, hfound₂⟩ := Option.map_eq_some_iff.mp hflagLast
  have heq₁ := hconverges₁.unique (converges_of_search hsearch₁ [])
  have heq₂ := hconverges₂.unique (converges_of_search hsearch₂ [])
  rw [← heq₁] at hfound₁
  rw [← heq₂] at hfound₂
  exact absurd (hfound₁.symm.trans hfound₂) (by decide)

/-! ## Functions known to throw -/

/-- A call carries the flag that is recorded for its caller's definition. -/
def FlagsAgree (index : Index) : Prop :=
  ∀ c ∈ index.funcCalls, ∃ d ∈ index.funcDefinitions,
    d.usr = c.callerUsr ∧ d.mightThrow = c.callerMightThrow

def Reaches (index : Index) (fromFunc u : String) : Prop :=
  ∃ d ∈ index.funcDefinitions, d.qualified = fromFunc ∧
    CallReach index.funcCalls d.usr u

def ReachesThrow (index : Index) (fromFunc : String) : Prop :=
  ∃ d ∈ index.funcDefinitions, Reaches index fromFunc d.usr ∧ d.mightThrow ≠ 0

/-- A function known to throw is reached that makes a recorded call itself. -/
def ReachesThrowingCaller (index : Index) (fromFunc : String) : Prop :=
  ∃ d ∈ index.funcDefinitions, Reaches index fromFunc d.usr ∧
    d.mightThrow ≠ 0 ∧ ∃ c ∈ index.funcCalls, c.callerUsr = d.usr

def ReportsThrowpath (index : Index) (fromFunc : String) : Prop :=
  ∃ names, names ≠ [] ∧
    Converges (fun frames => doQueryThrowpath (some index) fromFunc frames)
      ⟨0, .info "---------- throwpath ---------" :: names.map .name ++
        [.info "---------- END ---------"]⟩

theorem callerReached_rootCallers (index : Index)
    (fromFunc u : String) :
    CallerReached index.funcCalls (rootCallers (queryFuncDefUsrUsingQualified
        index.funcDefinitions fromFunc) fromFunc) u ↔
      Reaches index fromFunc u := by
  simp [CallerReached, rootCallers, queryFuncDefUsrUsingQualified,
    Reaches, and_assoc]

theorem reportsThrowpath_iff (index : Index) (fromFunc : String) :
    ReportsThrowpath index fromFunc ↔
      ∃ u, Reaches index fromFunc u ∧ throwsFirst index.funcCalls u = true := by
  simp only [← callerReached_rootCallers, ReportsThrowpath]
  generalize hroots : queryFuncDefUsrUsingQualified index.funcDefinitions
    fromFunc = roots
  by_cases hempty : roots.isEmpty = true
  · have hrun : Converges (fun frames =>
        doQueryThrowpath (some index) fromFunc frames) ⟨1, [.warning
          ("Cannot find USR using qualified name: " ++ fromFunc)]⟩ :=
      ⟨0, fun frames _ => by simp [doQueryThrowpath, hroots, hempty]⟩
    constructor
    · rintro ⟨names, -, hreport⟩
      simpa using congrArg Report.ret (hreport.unique hrun)
    · rintro ⟨u, ⟨root, hroot, -⟩, -⟩
      rw [List.isEmpty_iff.mp hempty] at hroot
      simp [rootCallers] at hroot
  obtain ⟨out, hruns, hconverges⟩ := searchThrowpath_converges index.funcCalls
    (rootCallers roots fromFunc) []
  have hrun : Converges (fun frames =>
      doQueryThrowpath (some index) fromFunc frames)
      (if (throwReportOf [] out).2.result.isEmpty then
        ⟨1, [.warning ("Cannot find throwpath from " ++ fromFunc)]⟩
      else
        ⟨0, .info "---------- throwpath ---------" ::
          (throwReportOf [] out).2.result.reverse.map .name ++
          [.info "---------- END ---------"]⟩) := by
    simp only [doQueryThrowpath, hroots, hempty]
    exact hconverges.map _
  have hfound : (throwReportOf [] out).1 = true ↔
      ∃ u, CallerReached index.funcCalls (rootCallers roots fromFunc) u ∧
        throwsFirst index.funcCalls u = true := searchThrowpath_found hruns
  rw [← hfound]
  cases hroute : out.route with
  | none =>
      simp only [throwReportOf, hroute, List.isEmpty_nil, if_true] at hrun ⊢
      constructor
      · rintro ⟨names, -, hreport⟩
        simpa using congrArg Report.ret (hreport.unique hrun)
      · exact fun h => absurd h (by decide)
  | some route =>
      have hne : route.map Prod.snd ≠ [] := by
        simpa using hruns.route_ne_nil hroute
      simp only [throwReportOf, hroute, List.nil_append, List.reverse_reverse,
        List.isEmpty_reverse, List.isEmpty_eq_false_iff.2 hne] at hrun ⊢
      simp only [iff_true]
      exact ⟨route.map Prod.snd, hne, hrun⟩

/--
The search asks the calls only, so a function known to throw is found through
a call that it makes itself.
-/
theorem throwpath_complete_iff (index : Index) (h : FlagsAgree index)
    (fromFunc : String) :
    (ReachesThrow index fromFunc → ReportsThrowpath index fromFunc) ↔
      (ReachesThrow index fromFunc →
        ReachesThrowingCaller index fromFunc) := by
  have hflag : ∀ c ∈ index.funcCalls, ∀ d ∈ index.funcDefinitions,
      c.callerUsr = d.usr → c.callerMightThrow = d.mightThrow := by
    intro c hc d hd hcaller
    obtain ⟨d', hd', husr, hthrow⟩ := h c hc
    rw [← hthrow, List.inj_on_of_nodup_map index.usrKey hd' hd
      (husr.trans hcaller)]
  have hconsistent : FlagsConsistent index.funcCalls := by
    intro row hrow row' hrow' hcaller
    obtain ⟨d, hd, husr, hthrow⟩ := h row hrow
    rw [← hthrow, hflag row' hrow' d hd (hcaller.symm.trans husr.symm)]
  have hfound : ReportsThrowpath index fromFunc ↔
      ReachesThrowingCaller index fromFunc := by
    simp only [reportsThrowpath_iff, throwsFirst_iff_of_consistent hconsistent]
    constructor
    · rintro ⟨u, hu, c, hc, rfl, hthrow⟩
      obtain ⟨d, hd, husr, hmight⟩ := h c hc
      exact ⟨d, hd, husr ▸ hu, hmight ▸ hthrow, c, hc, husr.symm⟩
    · rintro ⟨d, hd, hu, hthrow, c, hc, hcaller⟩
      exact ⟨d.usr, hu, c, hc, hcaller, hflag c hc d hd hcaller ▸ hthrow⟩
  rw [hfound]

def recursiveIndex : Index where
  funcDefinitions :=
    [⟨1, 0, "c:@F@main", "main", 0, 1, 1⟩,
     ⟨2, 0, "c:@F@helper", "helper", 1, 1, 5⟩]
  funcCalls := recursiveTable
  usrKey := by decide
  funcCallIdKey := by decide

theorem throwpath_complete_iff_recursive :
    (ReachesThrow recursiveIndex "main" →
      ReportsThrowpath recursiveIndex "main") ↔
    (ReachesThrow recursiveIndex "main" →
      ReachesThrowingCaller recursiveIndex "main") :=
  throwpath_complete_iff recursiveIndex (by unfold FlagsAgree; decide) "main"

def leafIndex : Index where
  funcDefinitions :=
    [⟨1, 0, "c:@F@main", "main", 0, 1, 1⟩,
     ⟨2, 0, "c:@F@fail", "fail", 1, 1, 5⟩]
  funcCalls := [⟨1, 0, "c:@F@main", 0, "c:@F@fail", "fail", 1, 2⟩]
  usrKey := by decide
  funcCallIdKey := by decide

theorem throwpath_misses_leaf :
    FlagsAgree leafIndex ∧
      ¬(ReachesThrow leafIndex "main" → ReportsThrowpath leafIndex "main") := by
  refine ⟨by unfold FlagsAgree; decide, fun hcomplete => ?_⟩
  have hthrows : ReachesThrow leafIndex "main" := by
    refine ⟨⟨2, 0, "c:@F@fail", "fail", 1, 1, 5⟩, by simp [leafIndex],
      ⟨⟨1, 0, "c:@F@main", "main", 0, 1, 1⟩, by simp [leafIndex], rfl, ?_⟩,
      by decide⟩
    exact .single ⟨_, List.mem_singleton_self _, rfl, rfl⟩
  obtain ⟨u, -, hfirst⟩ := (reportsThrowpath_iff _ _).1 (hcomplete hthrows)
  obtain ⟨row, hrow, -, hflag⟩ := exists_row_of_throwsFirst hfirst
  simp only [leafIndex, List.mem_singleton] at hrow
  exact hflag (hrow ▸ rfl)

end Pview.Query
