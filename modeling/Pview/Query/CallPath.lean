import Pview.Foundation.DepthFirst
import Pview.MySQL.Tables

/-!
# The call path query

`searchCallpath` is the recursion behind `--callpath`.  It reports names
through a result vector that is filled from the innermost frame outwards, and
shares one set of searched callers among all frames.  Both are explicit here;
the number of frames the recursion may open is the fuel.

The search proper is an instance of the depth-first search of
`Foundation.DepthFirst`, keyed by USR; this file adds what the frames push.
-/

namespace Pview.Query

open Pview.Foundation
open Pview.Foundation.DepthFirst
open Pview.MySQL

def queryFuncCallUsrQualifiedUsingCallerUsr (table : List FuncCallRow)
    (callerUsr : String) : List (String × String) :=
  (table.filter fun row => row.callerUsr = callerUsr).map fun row =>
    (row.usr, row.qualified)

structure SearchState where
  result : List String
  searchedCallerUsr : Finset String

def searchCallpathLoop (table : List FuncCallRow) (toFunc : String)
    (recurse : SearchState → List (String × String) →
      Option (Bool × SearchState)) :
    SearchState → List (String × String) → Option (Bool × SearchState)
  | state, [] => some (false, state)
  | state, (callerUsr, callerQualified) :: rest =>
      if callerUsr ∈ state.searchedCallerUsr then
        searchCallpathLoop table toFunc recurse state rest
      else
        let state := { state with
          searchedCallerUsr := insert callerUsr state.searchedCallerUsr }
        let calls := queryFuncCallUsrQualifiedUsingCallerUsr table callerUsr
        if calls.any fun call => call.2 = toFunc then
          some (true, { state with result := state.result ++ [toFunc] })
        else
          match recurse state calls with
          | none => none
          | some (true, state) =>
              some (true,
                { state with result := state.result ++ [callerQualified] })
          | some (false, state) =>
              searchCallpathLoop table toFunc recurse state rest

/-- Depth first search of callpath with at most `frames` nested calls. -/
def searchCallpath (table : List FuncCallRow) (toFunc : String) :
    Nat → SearchState → List (String × String) → Option (Bool × SearchState)
  | 0, _, _ => none
  | frames + 1, state, callers =>
      searchCallpathLoop table toFunc (searchCallpath table toFunc frames)
        state callers

def rootCallers (roots : List String) (fromFunc : String) :
    List (String × String) :=
  roots.map fun usr => (usr, fromFunc)

/-! ## The search as a depth-first search -/

def callsDirectly (table : List FuncCallRow) (toFunc callerUsr : String) :
    Bool :=
  (queryFuncCallUsrQualifiedUsingCallerUsr table callerUsr).any fun call =>
    call.2 = toFunc

/-- Names pushed, in this order, when the search hits at the end of `route`:
the frame of the hit pushes `to_func`, every outer frame its own caller. -/
def pushedNames (toFunc : String) (route : List (String × String)) :
    List String :=
  toFunc :: (route.dropLast.map Prod.snd).reverse

def reportOf (toFunc : String) (result : List String)
    (out : Found String String) : Bool × SearchState :=
  match out.route with
  | none => (false, ⟨result, out.visited⟩)
  | some route => (true, ⟨result ++ pushedNames toFunc route, out.visited⟩)

theorem pushedNames_cons {toFunc : String} {entry : String × String}
    {route : List (String × String)} (h : route ≠ []) :
    pushedNames toFunc (entry :: route) =
      pushedNames toFunc route ++ [entry.2] := by
  simp [pushedNames, List.dropLast_cons_of_ne_nil h]

theorem pushedNames_reverse (toFunc : String)
    (route : List (String × String)) :
    (pushedNames toFunc route).reverse =
      route.dropLast.map Prod.snd ++ [toFunc] := by
  simp [pushedNames]

private theorem searchCallpathLoop_eq_scan (table : List FuncCallRow)
    (toFunc : String)
    {recurse : SearchState → List (String × String) →
      Option (Bool × SearchState)}
    {descend : Finset String → List (String × String) →
      Option (Found String String)}
    (hrecurse : ∀ result searched callers,
      recurse ⟨result, searched⟩ callers =
        (descend searched callers).map (reportOf toFunc result))
    (hroute : ∀ searched callers out route,
      descend searched callers = some out → out.route = some route →
        route ≠ [])
    (result : List String) (searched : Finset String)
    (callers : List (String × String)) :
    searchCallpathLoop table toFunc recurse ⟨result, searched⟩ callers =
      (scan (queryFuncCallUsrQualifiedUsingCallerUsr table)
        (callsDirectly table toFunc) descend searched callers).map
          (reportOf toFunc result) := by
  induction callers generalizing searched with
  | nil => rfl
  | cons caller rest ih =>
      obtain ⟨callerUsr, callerQualified⟩ := caller
      rw [searchCallpathLoop, scan]
      by_cases hmem : callerUsr ∈ searched
      · simp only [hmem, if_true]
        exact ih searched
      simp only [hmem, if_false]
      by_cases hdirect : callsDirectly table toFunc callerUsr = true
      · have hany := hdirect
        rw [callsDirectly] at hany
        simp [hany, hdirect, reportOf, pushedNames]
      have hany := hdirect
      rw [callsDirectly] at hany
      simp only [hany, hdirect, hrecurse]
      cases hbelow : descend (insert callerUsr searched)
          (queryFuncCallUsrQualifiedUsingCallerUsr table callerUsr) with
      | none => rfl
      | some out =>
          obtain ⟨searched', route⟩ := out
          cases route with
          | none => simpa [reportOf] using ih searched'
          | some route =>
              have hne := hroute _ _ _ route hbelow rfl
              simp [reportOf, pushedNames_cons hne, List.append_assoc]

theorem searchCallpath_eq_search (table : List FuncCallRow) (toFunc : String)
    (frames : Nat) (result : List String) (searched : Finset String)
    (callers : List (String × String)) :
    searchCallpath table toFunc frames ⟨result, searched⟩ callers =
      (search (queryFuncCallUsrQualifiedUsingCallerUsr table)
        (callsDirectly table toFunc) frames searched callers).map
          (reportOf toFunc result) := by
  induction frames generalizing result searched callers with
  | zero => rfl
  | succ frames ih =>
      exact searchCallpathLoop_eq_scan table toFunc ih
        (fun _ _ _ _ hout => (runs_of_search hout).route_ne_nil)
        result searched callers

/-! ## Termination -/

private def knownUsr (table : List FuncCallRow)
    (callers : List (String × String)) : Finset String :=
  (callers.map Prod.fst ++ table.map FuncCallRow.usr).toFinset

theorem usr_mem_of_query {table : List FuncCallRow}
    {callerUsr : String} {call : String × String}
    (h : call ∈ queryFuncCallUsrQualifiedUsingCallerUsr table callerUsr) :
    ∃ row ∈ table,
      row.callerUsr = callerUsr ∧ call = (row.usr, row.qualified) := by
  simp only [queryFuncCallUsrQualifiedUsingCallerUsr, List.mem_map,
    List.mem_filter, decide_eq_true_eq] at h
  obtain ⟨row, ⟨hrow, hcaller⟩, rfl⟩ := h
  exact ⟨row, hrow, hcaller, rfl⟩

theorem callSearch_converges (table : List FuncCallRow) (hit : String → Bool)
    (callers : List (String × String)) :
    ∃ out : Found String String,
      Converges (fun frames => search
        (queryFuncCallUsrQualifiedUsingCallerUsr table) hit frames ∅ callers)
        out ∧
      Runs (queryFuncCallUsrQualifiedUsingCallerUsr table) hit ∅ callers
        out := by
  have hclosed : ∀ u ∈ knownUsr table callers,
      ∀ call ∈ queryFuncCallUsrQualifiedUsingCallerUsr table u,
        call.1 ∈ knownUsr table callers := by
    intro u _ call hcall
    obtain ⟨row, hrow, -, rfl⟩ := usr_mem_of_query hcall
    simp only [knownUsr, List.mem_toFinset, List.mem_append, List.mem_map]
    exact .inr ⟨row, hrow, rfl⟩
  have hcallers : ∀ caller ∈ callers, caller.1 ∈ knownUsr table callers := by
    intro caller hcaller
    simp only [knownUsr, List.mem_toFinset, List.mem_append, List.mem_map]
    exact .inl ⟨caller, hcaller, rfl⟩
  exact search_converges hit hclosed ∅ hcallers

theorem searchCallpath_converges (table : List FuncCallRow) (toFunc : String)
    (roots : List String) (fromFunc : String) (result : List String) :
    ∃ out : Found String String,
      Runs (queryFuncCallUsrQualifiedUsingCallerUsr table)
        (callsDirectly table toFunc) ∅ (rootCallers roots fromFunc) out ∧
      Converges (fun frames => searchCallpath table toFunc frames ⟨result, ∅⟩
        (rootCallers roots fromFunc)) (reportOf toFunc result out) := by
  obtain ⟨out, hconverges, hruns⟩ := callSearch_converges table
    (callsDirectly table toFunc) (rootCallers roots fromFunc)
  refine ⟨out, hruns, ?_⟩
  simp only [searchCallpath_eq_search]
  exact hconverges.map (reportOf toFunc result)

theorem searchCallpath_mono (table : List FuncCallRow) (toFunc : String)
    (result : List String) (searched : Finset String)
    (callers : List (String × String)) :
    FuelMono fun frames =>
      searchCallpath table toFunc frames ⟨result, searched⟩ callers := by
  simp only [searchCallpath_eq_search]
  exact (search_mono searched callers).map (reportOf toFunc result)

/-! ## Which pairs are connected -/

def CallReach (table : List FuncCallRow) : String → String → Prop :=
  Relation.ReflTransGen fun u v =>
    ∃ row ∈ table, row.callerUsr = u ∧ row.usr = v

theorem callsDirectly_iff {table : List FuncCallRow} {toFunc u : String} :
    callsDirectly table toFunc u = true ↔
      ∃ row ∈ table, row.callerUsr = u ∧ row.qualified = toFunc := by
  simp [callsDirectly, queryFuncCallUsrQualifiedUsingCallerUsr]

theorem edge_iff {table : List FuncCallRow} {u v : String} :
    Edge (queryFuncCallUsrQualifiedUsingCallerUsr table) u v ↔
      ∃ row ∈ table, row.callerUsr = u ∧ row.usr = v := by
  simp [Edge, queryFuncCallUsrQualifiedUsingCallerUsr, and_assoc]

theorem live_iff_callReach {table : List FuncCallRow} {hit : String → Bool}
    {u : String} :
    Live (queryFuncCallUsrQualifiedUsingCallerUsr table) hit ∅ u ↔
      ∃ v, CallReach table u v ∧ hit v = true := by
  simp only [Live, ReachAvoiding, CallReach, Finset.notMem_empty,
    not_false_eq_true, true_and, and_true, edge_iff]

/-- Some root reaches, by zero or more rows, a caller of `toFunc`. -/
def Connected (table : List FuncCallRow) (roots : List String)
    (toFunc : String) : Prop :=
  ∃ root ∈ roots, ∃ u, CallReach table root u ∧
    ∃ row ∈ table, row.callerUsr = u ∧ row.qualified = toFunc

theorem connected_congr {table table' : List FuncCallRow}
    {roots roots' : List String} {toFunc : String}
    (htable : ∀ row, row ∈ table' ↔ row ∈ table)
    (hroots : ∀ usr, usr ∈ roots' ↔ usr ∈ roots) :
    Connected table' roots' toFunc ↔ Connected table roots toFunc := by
  simp only [Connected, CallReach, htable, hroots]

theorem searchCallpath_found {table : List FuncCallRow}
    {toFunc fromFunc : String} {roots result : List String}
    {out : Found String String}
    (hruns : Runs (queryFuncCallUsrQualifiedUsingCallerUsr table)
      (callsDirectly table toFunc) ∅ (rootCallers roots fromFunc) out) :
    (reportOf toFunc result out).1 = true ↔ Connected table roots toFunc := by
  have hsome : (reportOf toFunc result out).1 = out.route.isSome := by
    cases hroute : out.route <;> simp [reportOf, hroute]
  rw [hsome, hruns.route_isSome_iff]
  simp only [live_iff_callReach, callsDirectly_iff, Connected, rootCallers,
    List.mem_map]
  constructor
  · rintro ⟨_, ⟨root, hroot, rfl⟩, hlive⟩
    exact ⟨root, hroot, hlive⟩
  · rintro ⟨root, hroot, hlive⟩
    exact ⟨_, ⟨root, hroot, rfl⟩, hlive⟩

/--
The search answers reachability, so neither the order of the rows nor the
order of the roots matters to whether a path is found.
-/
theorem searchCallpath_found_iff (table : List FuncCallRow)
    (roots : List String) (fromFunc toFunc : String) (result : List String) :
    ∃ found state,
      Converges (fun frames => searchCallpath table toFunc frames ⟨result, ∅⟩
        (rootCallers roots fromFunc)) (found, state) ∧
      (found = true ↔ Connected table roots toFunc) ∧
      ∀ table' roots', (∀ row, row ∈ table' ↔ row ∈ table) →
        (∀ usr, usr ∈ roots' ↔ usr ∈ roots) →
        ∃ state', Converges (fun frames =>
          searchCallpath table' toFunc frames ⟨result, ∅⟩
            (rootCallers roots' fromFunc)) (found, state') := by
  obtain ⟨out, hruns, hconverges⟩ :=
    searchCallpath_converges table toFunc roots fromFunc result
  refine ⟨(reportOf toFunc result out).1, (reportOf toFunc result out).2,
    hconverges, searchCallpath_found hruns, ?_⟩
  intro table' roots' htable hroots
  obtain ⟨out', hruns', hconverges'⟩ :=
    searchCallpath_converges table' toFunc roots' fromFunc result
  have hsame : (reportOf toFunc result out').1 =
      (reportOf toFunc result out).1 := by
    rw [Bool.eq_iff_iff, searchCallpath_found hruns',
      searchCallpath_found hruns, connected_congr htable hroots]
  refine ⟨(reportOf toFunc result out').2, ?_⟩
  rw [← hsame]
  exact hconverges'

/-! ## Which path is reported -/

/-- `CallChain table toFunc u names`: from USR `u` the calls named `names` can
be made one after the other, the last of them to `toFunc`. -/
inductive CallChain (table : List FuncCallRow) (toFunc : String) :
    String → List String → Prop
  | last {u row} (mem : row ∈ table) (caller : row.callerUsr = u)
      (target : row.qualified = toFunc) : CallChain table toFunc u [toFunc]
  | call {u name names row} (mem : row ∈ table) (caller : row.callerUsr = u)
      (callee : row.qualified = name)
      (below : CallChain table toFunc row.usr names) :
      CallChain table toFunc u (name :: names)

/-- The printed names are a contiguous call chain from a root to `toFunc`. -/
def IsCallpath (table : List FuncCallRow) (roots : List String)
    (fromFunc toFunc : String) (names : List String) : Prop :=
  ∃ root ∈ roots, ∃ callees, names = fromFunc :: callees ∧
    CallChain table toFunc root callees

/-- A search that returns `true` has pushed a call path in reverse; one that
returns `false` has pushed nothing. -/
def ReportsCallpath (table : List FuncCallRow) (roots : List String)
    (fromFunc toFunc : String) (result : List String) : Prop :=
  ∃ found state,
    Converges (fun frames => searchCallpath table toFunc frames ⟨result, ∅⟩
      (rootCallers roots fromFunc)) (found, state) ∧
    (found = true → ∃ pushed, state.result = result ++ pushed ∧
      IsCallpath table roots fromFunc toFunc pushed.reverse) ∧
    (found = false → state.result = result)

inductive CallsNamed (table : List FuncCallRow) :
    String → List String → String → Prop
  | refl (u : String) : CallsNamed table u [] u
  | call {u v name names row} (mem : row ∈ table) (caller : row.callerUsr = u)
      (callee : row.qualified = name)
      (below : CallsNamed table row.usr names v) :
      CallsNamed table u (name :: names) v

private theorem callChain_append_iff {table : List FuncCallRow}
    {toFunc u : String} {names : List String} :
    CallChain table toFunc u (names ++ [toFunc]) ↔
      ∃ v, CallsNamed table u names v ∧
        callsDirectly table toFunc v = true := by
  simp only [callsDirectly_iff]
  constructor
  · intro h
    induction names generalizing u with
    | nil =>
        cases h with
        | last mem caller target => exact ⟨u, .refl u, _, mem, caller, target⟩
        | call _ _ _ below => cases below
    | cons name names ih =>
        generalize hrest : names ++ [toFunc] = rest at ih
        rw [List.cons_append, hrest] at h
        cases h with
        | last => simp at hrest
        | call mem caller callee below =>
            obtain ⟨v, hcalls, hdirect⟩ := ih below
            exact ⟨v, .call mem caller callee hcalls, hdirect⟩
  · rintro ⟨v, hcalls, row, mem, caller, target⟩
    induction hcalls with
    | refl u => exact .last mem caller target
    | call mem' caller' callee' _ ih =>
        exact .call mem' caller' callee' (ih caller)

/-- The direct caller at the end of the route can be done without: from a root
on, functions named like those between the first and the last of the route
call each other, and the last of them calls `toFunc` itself. -/
def Bypassed (table : List FuncCallRow) (roots : List String)
    (toFunc : String) (route : List (String × String)) : Prop :=
  2 ≤ route.length ∧ ∃ root ∈ roots, ∃ u,
    CallsNamed table root (route.dropLast.tail.map Prod.snd) u ∧
      callsDirectly table toFunc u = true

private theorem isCallpath_iff_bypassed {table : List FuncCallRow}
    {roots : List String} {fromFunc toFunc usr : String}
    {below : List (String × String)} :
    IsCallpath table roots fromFunc toFunc
        ((((usr, fromFunc) :: below).dropLast.map Prod.snd) ++ [toFunc]) ↔
      Bypassed table roots toFunc ((usr, fromFunc) :: below) := by
  cases below with
  | nil =>
      simp only [IsCallpath, Bypassed, List.dropLast_singleton, List.map_nil,
        List.nil_append, List.cons.injEq]
      constructor
      · rintro ⟨root, -, _, ⟨-, rfl⟩, hchain⟩
        cases hchain
      · intro h
        simp at h
  | cons entry below =>
      simp [IsCallpath, Bypassed, callChain_append_iff]

/--
The frame that finds the direct caller of `toFunc` pushes `toFunc` but not that
caller, which is therefore missing from the reported path.  The report is a
call path only when nothing is found, or when namesakes of the functions before
the missing one make up a path without it.
-/
theorem searchCallpath_reports_iff (table : List FuncCallRow)
    (roots : List String) (fromFunc toFunc : String) (result : List String) :
    ReportsCallpath table roots fromFunc toFunc result ↔
      ∀ route, LeftmostRoute (queryFuncCallUsrQualifiedUsingCallerUsr table)
          (callsDirectly table toFunc) ∅ (rootCallers roots fromFunc) route →
        Bypassed table roots toFunc route := by
  have hbypassed : ∀ route, LeftmostRoute
      (queryFuncCallUsrQualifiedUsingCallerUsr table)
      (callsDirectly table toFunc) ∅ (rootCallers roots fromFunc) route →
        (IsCallpath table roots fromFunc toFunc
            (route.dropLast.map Prod.snd ++ [toFunc]) ↔
          Bypassed table roots toFunc route) := by
    intro route hroute
    obtain ⟨entry, hentry, below, rfl⟩ := hroute.head
    obtain ⟨usr, -, rfl⟩ := List.mem_map.mp hentry
    exact isCallpath_iff_bypassed
  obtain ⟨out, hruns, hconverges⟩ :=
    searchCallpath_converges table toFunc roots fromFunc result
  constructor
  · rintro ⟨found, state, hconverges', hfound, -⟩ route hroute
    have heq := hconverges'.unique hconverges
    rw [← hbypassed route hroute]
    rw [← hruns.route_iff] at hroute
    simp only [reportOf, hroute, Prod.mk.injEq] at heq
    obtain ⟨rfl, rfl⟩ := heq
    obtain ⟨pushed, hpushed, hpath⟩ := hfound rfl
    rw [← List.append_cancel_left hpushed, pushedNames_reverse] at hpath
    exact hpath
  · intro hpath
    refine ⟨(reportOf toFunc result out).1, (reportOf toFunc result out).2,
      hconverges, ?_, ?_⟩
    · intro hfound
      cases hroute : out.route with
      | none => simp [reportOf, hroute] at hfound
      | some route =>
          refine ⟨pushedNames toFunc route, by simp [reportOf, hroute], ?_⟩
          have hleftmost := (hruns.route_iff route).1 hroute
          rw [pushedNames_reverse, hbypassed route hleftmost]
          exact hpath route hleftmost
    · intro hfound
      cases hroute : out.route with
      | none => simp [reportOf, hroute]
      | some route => simp [reportOf, hroute] at hfound

def helperTable : List FuncCallRow :=
  [⟨1, 0, "c:@F@main", 0, "c:@F@helper", "helper", 1, 1⟩,
   ⟨2, 0, "c:@F@helper", 0, "c:@F@target", "target", 1, 2⟩]

theorem searchCallpath_omits_direct_caller :
    ¬ReportsCallpath helperTable ["c:@F@main"] "main" "target" [] := by
  rintro ⟨found, state, hconverges, hfound, -⟩
  have hrun : (searchCallpath helperTable "target" 3 ⟨[], ∅⟩
      (rootCallers ["c:@F@main"] "main")).map
        (fun out => (out.1, out.2.result)) =
      some (true, ["target", "main"]) := by rfl
  obtain ⟨⟨found', state'⟩, hout, hprinted⟩ := Option.map_eq_some_iff.mp hrun
  have heq := hconverges.unique
    ((searchCallpath_mono _ _ _ _ _).converges hout)
  simp only [Prod.mk.injEq] at heq hprinted
  obtain ⟨rfl, rfl⟩ := heq
  obtain ⟨pushed, hpushed, root, hroot, callees, hnames, hchain⟩ :=
    hfound hprinted.1
  rw [hprinted.2, List.nil_append] at hpushed
  subst hpushed
  simp only [List.reverse_cons, List.reverse_nil, List.nil_append,
    List.cons_append, List.cons.injEq, true_and] at hnames
  subst hnames
  simp only [List.mem_singleton] at hroot
  subst hroot
  have hmain : ∀ row ∈ helperTable, row.callerUsr = "c:@F@main" →
      row.qualified ≠ "target" := by decide
  cases hchain with
  | last mem caller target => exact hmain _ mem caller target
  | call _ _ _ below => cases below

end Pview.Query
