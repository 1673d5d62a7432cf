import Pview.Query.ThrowPath

/-!
# The queries of the path searches

Both searches run one query for each caller that they mark.  Here the state
also records these queries, in their order; without the record the searches are
those of `CallPath` and `ThrowPath`.  The initial set of searched callers is
arbitrary.
-/

namespace Pview.Query

open Pview.Foundation
open Pview.Foundation.DepthFirst
open Pview.MySQL

structure QueryState extends SearchState where
  /-- The arguments of `query_func_call_..._using_caller_usr`. -/
  queried : List String

def QueryState.query (state : QueryState) (callerUsr : String) : QueryState where
  result := state.result
  searchedCallerUsr := insert callerUsr state.searchedCallerUsr
  queried := state.queried ++ [callerUsr]

def QueryState.push (state : QueryState) (name : String) : QueryState :=
  { state with result := state.result ++ [name] }

inductive Answer where
  | found (name : String)
  | passOver
  | descend (calls : List (String × String))

/-- The loop over `all_caller_usr` with its queries; `answer` is the code
between the query and the recursive call. -/
def searchLoop (answer : String × String → Answer)
    (recurse : QueryState → List (String × String) →
      Option (Bool × QueryState)) :
    QueryState → List (String × String) → Option (Bool × QueryState)
  | state, [] => some (false, state)
  | state, caller :: rest =>
      if caller.1 ∈ state.searchedCallerUsr then
        searchLoop answer recurse state rest
      else
        let state := state.query caller.1
        match answer caller with
        | .found name => some (true, state.push name)
        | .passOver => searchLoop answer recurse state rest
        | .descend calls =>
            match recurse state calls with
            | none => none
            | some (true, state) => some (true, state.push caller.2)
            | some (false, state) => searchLoop answer recurse state rest

def searchFrames (answer : String × String → Answer) :
    Nat → QueryState → List (String × String) → Option (Bool × QueryState)
  | 0, _, _ => none
  | frames + 1, state, callers =>
      searchLoop answer (searchFrames answer frames) state callers

def callpathAnswer (table : List FuncCallRow) (toFunc : String)
    (caller : String × String) : Answer :=
  let calls := queryFuncCallUsrQualifiedUsingCallerUsr table caller.1
  if calls.any fun call => call.2 = toFunc then .found toFunc
  else .descend calls

def throwpathAnswer (table : List FuncCallRow) (caller : String × String) :
    Answer :=
  let calls := queryFuncCallUsrQualifiedMightThrowUsingCallerUsr table caller.1
  match calls with
  | [] => .passOver
  | (_, _, callerThrow) :: _ =>
      if callerThrow ≠ 0 then .found caller.2
      else .descend (calls.map fun call => (call.1, call.2.1))

def searchCallpathQueries (table : List FuncCallRow) (toFunc : String) :
    Nat → QueryState → List (String × String) → Option (Bool × QueryState) :=
  searchFrames (callpathAnswer table toFunc)

def searchThrowpathQueries (table : List FuncCallRow) :
    Nat → QueryState → List (String × String) → Option (Bool × QueryState) :=
  searchFrames (throwpathAnswer table)

/-! ## Without the record -/

def forgetQueries (out : Bool × QueryState) : Bool × SearchState :=
  (out.1, out.2.toSearchState)

private theorem forget_descend {callers rest : List (String × String)}
    {name : String} {state : QueryState}
    {recurse loop : QueryState → List (String × String) →
      Option (Bool × QueryState)}
    {recurse' loop' : SearchState → List (String × String) →
      Option (Bool × SearchState)}
    (hrecurse : (recurse state callers).map forgetQueries =
      recurse' state.toSearchState callers)
    (hloop : ∀ state, (loop state rest).map forgetQueries =
      loop' state.toSearchState rest) :
    (match recurse state callers with
      | none => none
      | some (true, state) => some (true, state.push name)
      | some (false, state) => loop state rest).map forgetQueries =
    match recurse' state.toSearchState callers with
      | none => none
      | some (true, state) =>
          some (true, { state with result := state.result ++ [name] })
      | some (false, state) => loop' state rest := by
  rw [← hrecurse]
  cases recurse state callers with
  | none => rfl
  | some out =>
      obtain ⟨found, state⟩ := out
      cases found with
      | true => rfl
      | false => exact hloop state

theorem searchCallpathQueries_forget (table : List FuncCallRow)
    (toFunc : String) (frames : Nat) (state : QueryState)
    (callers : List (String × String)) :
    (searchCallpathQueries table toFunc frames state callers).map
        forgetQueries =
      searchCallpath table toFunc frames state.toSearchState callers := by
  unfold searchCallpathQueries
  induction frames generalizing state callers with
  | zero => rfl
  | succ frames ihFrames =>
      rw [searchFrames, searchCallpath]
      induction callers generalizing state with
      | nil => rfl
      | cons caller rest ih =>
          rw [searchLoop, searchCallpathLoop]
          by_cases hmem : caller.1 ∈ state.searchedCallerUsr
          · rw [if_pos hmem, if_pos hmem]
            exact ih state
          rw [if_neg hmem, if_neg hmem]
          dsimp only
          cases hdirect : (queryFuncCallUsrQualifiedUsingCallerUsr table
              caller.1).any fun call => call.2 = toFunc with
          | true =>
              have hanswer : callpathAnswer table toFunc caller =
                  .found toFunc := by
                simp only [callpathAnswer, hdirect, if_true]
              rw [hanswer, if_pos rfl]
              rfl
          | false =>
              have hanswer : callpathAnswer table toFunc caller =
                  .descend (queryFuncCallUsrQualifiedUsingCallerUsr table
                    caller.1) := by
                simp only [callpathAnswer, hdirect, Bool.false_eq_true,
                  if_false]
              rw [hanswer, if_neg (by simp)]
              exact forget_descend (ihFrames _ _) ih

theorem searchThrowpathQueries_forget (table : List FuncCallRow)
    (frames : Nat) (state : QueryState) (callers : List (String × String)) :
    (searchThrowpathQueries table frames state callers).map forgetQueries =
      searchThrowpath table frames state.toSearchState callers := by
  unfold searchThrowpathQueries
  induction frames generalizing state callers with
  | zero => rfl
  | succ frames ihFrames =>
      rw [searchFrames, searchThrowpath]
      induction callers generalizing state with
      | nil => rfl
      | cons caller rest ih =>
          rw [searchLoop, searchThrowpathLoop]
          by_cases hmem : caller.1 ∈ state.searchedCallerUsr
          · rw [if_pos hmem, if_pos hmem]
            exact ih state
          rw [if_neg hmem, if_neg hmem]
          dsimp only
          cases hcalls : queryFuncCallUsrQualifiedMightThrowUsingCallerUsr
              table caller.1 with
          | nil =>
              have hanswer : throwpathAnswer table caller = .passOver := by
                simp only [throwpathAnswer, hcalls]
              rw [hanswer]
              exact ih _
          | cons call calls =>
              obtain ⟨usr, qualified, callerThrow⟩ := call
              by_cases hthrow : callerThrow ≠ 0
              · have hanswer : throwpathAnswer table caller =
                    .found caller.2 := by
                  simp only [throwpathAnswer, hcalls, if_pos hthrow]
                rw [hanswer]
                dsimp only
                rw [if_pos hthrow]
                rfl
              · have hanswer : throwpathAnswer table caller =
                    .descend (((usr, qualified, callerThrow) :: calls).map
                      fun call => (call.1, call.2.1)) := by
                  simp only [throwpathAnswer, hcalls, if_neg hthrow]
                rw [hanswer]
                dsimp only
                rw [if_neg hthrow]
                exact forget_descend (ihFrames _ _) ih

/-! ## Each query once -/

def QueryState.marked (state : QueryState) : Marked String :=
  ⟨state.searchedCallerUsr, state.queried⟩

theorem QueryState.marks_query {state : QueryState} {callerUsr : String}
    (h : callerUsr ∉ state.searchedCallerUsr) :
    Marks state.marked (state.query callerUsr).marked :=
  Marks.mark h

private theorem searchLoop_marks {answer : String × String → Answer}
    {recurse : QueryState → List (String × String) →
      Option (Bool × QueryState)}
    (hrecurse : ∀ state callers out, recurse state callers = some out →
      Marks state.marked out.2.marked)
    {state : QueryState} {callers : List (String × String)}
    {out : Bool × QueryState}
    (h : searchLoop answer recurse state callers = some out) :
    Marks state.marked out.2.marked := by
  induction callers generalizing state with
  | nil =>
      cases h
      exact Marks.refl _
  | cons caller rest ih =>
      rw [searchLoop] at h
      split at h
      · exact ih h
      rename_i hfresh
      refine (QueryState.marks_query hfresh).trans ?_
      dsimp only at h
      split at h
      · cases h
        exact Marks.refl _
      · exact ih h
      · split at h
        · contradiction
        · rename_i state' hbelow
          cases h
          exact hrecurse _ _ (true, state') hbelow
        · rename_i state' hbelow
          exact (hrecurse _ _ _ hbelow).trans (ih h)

theorem searchFrames_marks {answer : String × String → Answer} {frames : Nat}
    {state : QueryState} {callers : List (String × String)}
    {out : Bool × QueryState}
    (h : searchFrames answer frames state callers = some out) :
    Marks state.marked out.2.marked := by
  induction frames generalizing state callers out with
  | zero => contradiction
  | succ frames ih => exact searchLoop_marks (fun _ _ _ => ih) h

/-! ## Depth and reach -/

def usrsOf (table : List FuncCallRow) (callers : List (String × String)) :
    Finset String :=
  (callers.map Prod.fst ++ table.map FuncCallRow.callerUsr ++
    table.map FuncCallRow.usr).toFinset

def CallReachAvoiding (table : List FuncCallRow) (avoid : Finset String)
    (u v : String) : Prop :=
  u ∉ avoid ∧ Relation.ReflTransGen (fun a b =>
    (∃ row ∈ table, row.callerUsr = a ∧ row.usr = b) ∧ b ∉ avoid) u v

theorem reachAvoiding_iff_callReachAvoiding {table : List FuncCallRow}
    {avoid : Finset String} {u v : String} :
    ReachAvoiding (queryFuncCallUsrQualifiedUsingCallerUsr table) avoid u v ↔
      CallReachAvoiding table avoid u v := by
  simp only [ReachAvoiding, CallReachAvoiding, edge_iff]

theorem search_of_frames (table : List FuncCallRow) (hit : String → Bool)
    (searched : Finset String) (callers : List (String × String))
    {frames : Nat} (hframes : (usrsOf table callers).card < frames) :
    ∃ out, search (queryFuncCallUsrQualifiedUsingCallerUsr table) hit frames
      searched callers = some out := by
  have hclosed : ∀ u ∈ usrsOf table callers,
      ∀ call ∈ queryFuncCallUsrQualifiedUsingCallerUsr table u,
        call.1 ∈ usrsOf table callers := by
    intro u _ call hcall
    obtain ⟨row, hrow, -, rfl⟩ := usr_mem_of_query hcall
    simp only [usrsOf, List.mem_toFinset, List.mem_append, List.mem_map]
    exact .inr ⟨row, hrow, rfl⟩
  have hcallers : ∀ caller ∈ callers, caller.1 ∈ usrsOf table callers := by
    intro caller hcaller
    simp only [usrsOf, List.mem_toFinset, List.mem_append, List.mem_map]
    exact .inl (.inl ⟨caller, hcaller, rfl⟩)
  have hroom := Finset.card_le_card
    (Finset.sdiff_subset (s := usrsOf table callers) (t := searched))
  exact search_total hclosed hcallers (by omega)

/-- `run` is the search `plain` with its queries.  It returns when it may nest
one call more than there are USRs, it queries each caller at most once and none
that was searched before, and when it finds nothing, it has queried, and
marked, what the roots reach around these. -/
def Explores (table : List FuncCallRow) (searched : Finset String)
    (callers : List (String × String))
    (run : Nat → Option (Bool × QueryState))
    (plain : Nat → Option (Bool × SearchState)) : Prop :=
  (∀ frames, (run frames).map forgetQueries = plain frames) ∧
  ∀ frames, (usrsOf table callers).card < frames →
    ∃ found state, run frames = some (found, state) ∧
      state.queried.Nodup ∧ (∀ usr ∈ state.queried, usr ∉ searched) ∧
      (found = false → ∀ usr,
        (usr ∈ state.queried ↔ ∃ caller ∈ callers,
          CallReachAvoiding table searched caller.1 usr) ∧
        (usr ∈ state.queried → usr ∈ state.searchedCallerUsr))

private theorem explores_of_forget {table : List FuncCallRow}
    {searched : Finset String} {callers : List (String × String)}
    {result : List String} {answer : String × String → Answer}
    {plain : Nat → Option (Bool × SearchState)} (hit : String → Bool)
    (report : Found String String → Bool × SearchState)
    (hforget : ∀ frames,
      (searchFrames answer frames ⟨⟨result, searched⟩, []⟩ callers).map
        forgetQueries = plain frames)
    (hplain : ∀ frames out,
      search (queryFuncCallUsrQualifiedUsingCallerUsr table) hit frames
        searched callers = some out → plain frames = some (report out))
    (hreport : ∀ out, (report out).2.searchedCallerUsr = out.visited ∧
      ((report out).1 = false → out.route = none)) :
    Explores table searched callers
      (fun frames =>
        searchFrames answer frames ⟨⟨result, searched⟩, []⟩ callers)
      plain := by
  refine ⟨hforget, fun frames hframes => ?_⟩
  obtain ⟨out, hsearch⟩ := search_of_frames table hit searched callers hframes
  have hmap := hforget frames
  rw [hplain frames out hsearch] at hmap
  obtain ⟨⟨found, state⟩, hrun, hout⟩ := Option.map_eq_some_iff.mp hmap
  have hmarks := searchFrames_marks hrun
  simp only [Marks, QueryState.marked, List.nil_append] at hmarks
  obtain ⟨queried, rfl, hnodup, hfresh, hsearched⟩ := hmarks
  refine ⟨found, state, hrun, hnodup, hfresh, ?_⟩
  rintro rfl usr
  have hvisited : state.searchedCallerUsr = out.visited := by
    rw [← (hreport out).1, ← hout]
    rfl
  have hroute : out.route = none := (hreport out).2 (by rw [← hout]; rfl)
  have hreach := (runs_of_search hsearch).mem_visited_iff hroute usr
  simp only [← hvisited, hsearched,
    reachAvoiding_iff_callReachAvoiding] at hreach
  constructor
  · constructor
    · intro hqueried
      exact (hreach.mp (.inr hqueried)).resolve_left (hfresh usr hqueried)
    · rintro ⟨caller, hcaller, hpath⟩
      have hnot := (reachAvoiding_iff_callReachAvoiding.mpr hpath).not_mem
      exact (hreach.mpr (.inr ⟨caller, hcaller, hpath⟩)).resolve_left hnot
  · exact fun hqueried => (hsearched usr).mpr (.inr hqueried)

/-- Both searches end on every table, whatever was searched before, and the set
of searched callers is what they have looked at. -/
theorem search_explores (table : List FuncCallRow) (toFunc : String)
    (result : List String) (searched : Finset String)
    (callers : List (String × String)) :
    Explores table searched callers
      (fun frames => searchCallpathQueries table toFunc frames
        ⟨⟨result, searched⟩, []⟩ callers)
      (fun frames => searchCallpath table toFunc frames ⟨result, searched⟩
        callers) ∧
    Explores table searched callers
      (fun frames => searchThrowpathQueries table frames
        ⟨⟨result, searched⟩, []⟩ callers)
      (fun frames => searchThrowpath table frames ⟨result, searched⟩
        callers) := by
  constructor
  · refine explores_of_forget (callsDirectly table toFunc)
      (reportOf toFunc result) ?_ ?_ ?_
    · intro frames
      exact searchCallpathQueries_forget table toFunc frames _ callers
    · intro frames out hsearch
      rw [searchCallpath_eq_search, hsearch, Option.map_some]
    · intro out
      cases hroute : out.route <;> simp [reportOf, hroute]
  · refine explores_of_forget (throwsFirst table) (throwReportOf result)
      ?_ ?_ ?_
    · intro frames
      exact searchThrowpathQueries_forget table frames _ callers
    · intro frames out hsearch
      exact searchThrowpath_of_search table frames result searched callers out
        hsearch
    · intro out
      cases hroute : out.route <;> simp [throwReportOf, hroute]

end Pview.Query
