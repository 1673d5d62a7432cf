import Pview.Indexer.StrUtils
import Pview.Query.CalleeCaller

/-!
# The request of a call path query

`--callpath` is split at semicolons and checked before anything is asked of
the server.
-/

namespace Pview.Query

open Pview.Foundation
open Pview.Indexer (splitString splitStringImpl splitStringImpl_eq_pair_iff)
open Pview.MySQL

inductive CallpathCall where
  | createMysqlConn
  | queryFuncDefUsrUsingQualified (qualified : String)
  | searchCallpath (callers : List (String × String)) (toFunc : String)
  deriving DecidableEq, Repr

def doQueryCallpath (conn : Option Index) (frames : Nat) (callpath : String) :
    Option (List CallpathCall × Report) :=
  match splitString callpath ';' with
  | [fromFunc, toFunc] =>
      if fromFunc.isEmpty || toFunc.isEmpty then
        some ([], invalid)
      else if fromFunc = toFunc then
        some ([], ⟨1, [.error
          "Duplicate from_func and to_func name. Nothing to do."]⟩)
      else
        match conn with
        | none => some ([.createMysqlConn], ⟨1, [.error
            "Fail to create mysql connection. Can't search callpath."]⟩)
        | some index =>
            let allCallerUsr :=
              queryFuncDefUsrUsingQualified index.funcDefinitions fromFunc
            let asked := [.createMysqlConn,
              .queryFuncDefUsrUsingQualified fromFunc]
            if allCallerUsr.isEmpty then
              some (asked, ⟨1, [.warning
                ("Cannot find USR using qualified name: " ++ fromFunc)]⟩)
            else
              let callers := rootCallers allCallerUsr fromFunc
              (searchCallpath index.funcCalls toFunc frames ⟨[], ∅⟩
                callers).map fun (_, state) =>
                (asked ++ [.searchCallpath callers toFunc],
                  if state.result.isEmpty then
                    ⟨1, [.warning ("Cannot find callpath from " ++ fromFunc ++
                      " to " ++ toFunc)]⟩
                  else
                    ⟨0, .info "---------- callpath ---------" ::
                      state.result.reverse.map .name ++
                      [.info "---------- END ---------"]⟩)
  | _ => some ([], invalid)
where
  invalid : Report :=
    ⟨1, [.error ("Invalid callpath request format" ++
      ", expected --callpath='start_func;to_func'" ++
      ", but found: " ++ callpath)]⟩

/-- The request `A;B`, possibly with a semicolon at its end. -/
structure IsRequest (callpath fromFunc toFunc : String) : Prop where
  startName : fromFunc ≠ "" ∧ ';' ∉ fromFunc.toList
  goalName : toFunc ≠ "" ∧ ';' ∉ toFunc.toList
  differ : fromFunc ≠ toFunc
  text : callpath = fromFunc ++ ";" ++ toFunc ∨
    callpath = fromFunc ++ ";" ++ toFunc ++ ";"

/-- The calls of a search that the server answers: the definitions of
`from_func` are the roots, and `to_func` is the goal. -/
def callpathCalls (conn : Option Index) (fromFunc toFunc : String) :
    List CallpathCall :=
  match conn with
  | none => [.createMysqlConn]
  | some index =>
      let usrs := queryFuncDefUsrUsingQualified index.funcDefinitions fromFunc
      if usrs.isEmpty then
        [.createMysqlConn, .queryFuncDefUsrUsingQualified fromFunc]
      else
        [.createMysqlConn, .queryFuncDefUsrUsingQualified fromFunc,
          .searchCallpath (rootCallers usrs fromFunc) toFunc]

theorem callpathCalls_ne_nil (conn : Option Index) (fromFunc toFunc : String) :
    callpathCalls conn fromFunc toFunc ≠ [] := by
  unfold callpathCalls
  split
  · simp
  · simp only
    split <;> simp

theorem splitString_eq_pair_iff (callpath fromFunc toFunc : String) :
    splitString callpath ';' = [fromFunc, toFunc] ↔
      ';' ∉ fromFunc.toList ∧ ';' ∉ toFunc.toList ∧
        (callpath = fromFunc ++ ";" ++ toFunc ∧ toFunc ≠ "" ∨
          callpath = fromFunc ++ ";" ++ toFunc ++ ";") := by
  have hpieces : splitString callpath ';' = [fromFunc, toFunc] ↔
      splitStringImpl (List.finIdxOf? ';') callpath.toList =
        [fromFunc.toList, toFunc.toList] := by
    rw [splitString]
    constructor
    · intro h
      simpa using congrArg (List.map String.toList) h
    · intro h
      simp [h]
  have hsemicolon : ";".toList = [';'] := rfl
  have hpair : callpath = fromFunc ++ ";" ++ toFunc ↔
      callpath.toList = fromFunc.toList ++ ';' :: toFunc.toList := by
    rw [← String.toList_inj, String.toList_append, String.toList_append,
      hsemicolon, List.append_assoc, List.singleton_append]
  have htrailing : callpath = fromFunc ++ ";" ++ toFunc ++ ";" ↔
      callpath.toList = fromFunc.toList ++ ';' :: toFunc.toList ++ [';'] := by
    rw [← String.toList_inj, String.toList_append, String.toList_append,
      String.toList_append, hsemicolon, List.append_assoc fromFunc.toList,
      List.singleton_append]
  have hempty : toFunc ≠ "" ↔ toFunc.toList ≠ [] := by simp
  rw [hpieces, splitStringImpl_eq_pair_iff, hpair, htrailing, hempty]

theorem isRequest_iff (callpath fromFunc toFunc : String) :
    IsRequest callpath fromFunc toFunc ↔
      splitString callpath ';' = [fromFunc, toFunc] ∧ fromFunc ≠ "" ∧
        toFunc ≠ "" ∧ fromFunc ≠ toFunc := by
  rw [splitString_eq_pair_iff]
  constructor
  · intro h
    have htext := h.text
    have hgoal := h.goalName.1
    exact ⟨⟨h.startName.2, h.goalName.2, by tauto⟩, h.startName.1, hgoal,
      h.differ⟩
  · rintro ⟨⟨hstart, hgoal, htext⟩, hne, hne', hdiffer⟩
    exact ⟨⟨hne, hstart⟩, ⟨hne', hgoal⟩, hdiffer, by tauto⟩

theorem doQueryCallpath_of_isRequest (conn : Option Index)
    {callpath fromFunc toFunc : String}
    (h : IsRequest callpath fromFunc toFunc) :
    ∃ report, Converges (fun frames => doQueryCallpath conn frames callpath)
      (callpathCalls conn fromFunc toFunc, report) := by
  obtain ⟨hsplit, hstart, hgoal, hdiffer⟩ := (isRequest_iff _ _ _).mp h
  have hnonempty : (fromFunc.isEmpty || toFunc.isEmpty) = false := by
    simp [hstart, hgoal]
  unfold doQueryCallpath callpathCalls
  simp only [hsplit, hnonempty, Bool.false_eq_true, hdiffer, if_false]
  cases conn with
  | none => exact ⟨_, .of_const fun _ => rfl⟩
  | some index =>
      simp only
      split
      · exact ⟨_, .of_const fun _ => rfl⟩
      · obtain ⟨out, -, hconverges⟩ := searchCallpath_converges
          index.funcCalls toFunc
          (queryFuncDefUsrUsingQualified index.funcDefinitions fromFunc)
          fromFunc []
        exact ⟨_, hconverges.map _⟩

theorem doQueryCallpath_of_not_isRequest (conn : Option Index)
    {callpath : String} (h : ∀ fromFunc toFunc,
      ¬IsRequest callpath fromFunc toFunc) :
    ∃ report : Report, report.ret = 1 ∧
      ∀ frames, doQueryCallpath conn frames callpath = some ([], report) := by
  unfold doQueryCallpath
  split
  · rename_i fromFunc toFunc hsplit
    have hnot := h fromFunc toFunc
    rw [isRequest_iff] at hnot
    split
    · exact ⟨_, rfl, fun _ => rfl⟩
    · rename_i hnonempty
      simp only [Bool.or_eq_true, String.isEmpty_iff, not_or] at hnonempty
      split
      · exact ⟨_, rfl, fun _ => rfl⟩
      · rename_i hdiffer
        exact absurd ⟨hsplit, hnonempty.1, hnonempty.2, hdiffer⟩ hnot
  · exact ⟨_, rfl, fun _ => rfl⟩

/-- A request is `A;B` or `A;B;`, and is searched from `A` towards `B`; all
else is refused before the server is asked. -/
theorem doQueryCallpath_accepts (conn : Option Index) (callpath : String) :
    ∃ calls report,
      Converges (fun frames => doQueryCallpath conn frames callpath)
        (calls, report) ∧
      (calls ≠ [] ↔ ∃ fromFunc toFunc, IsRequest callpath fromFunc toFunc) ∧
      (∀ fromFunc toFunc, IsRequest callpath fromFunc toFunc →
        calls = callpathCalls conn fromFunc toFunc) ∧
      (calls = [] → report.ret = 1) := by
  by_cases hrequest : ∃ fromFunc toFunc, IsRequest callpath fromFunc toFunc
  · obtain ⟨fromFunc, toFunc, h⟩ := hrequest
    obtain ⟨report, hconverges⟩ := doQueryCallpath_of_isRequest conn h
    have hne := callpathCalls_ne_nil conn fromFunc toFunc
    refine ⟨_, report, hconverges, ⟨fun _ => ⟨fromFunc, toFunc, h⟩,
      fun _ => hne⟩, fun fromFunc' toFunc' h' => ?_, fun hnil =>
      absurd hnil hne⟩
    have hsame := ((isRequest_iff _ _ _).mp h).1.symm.trans
      ((isRequest_iff _ _ _).mp h').1
    cases hsame
    rfl
  · have hnone : ∀ fromFunc toFunc, ¬IsRequest callpath fromFunc toFunc :=
      fun fromFunc toFunc h => hrequest ⟨fromFunc, toFunc, h⟩
    obtain ⟨report, hret, hrun⟩ := doQueryCallpath_of_not_isRequest conn hnone
    exact ⟨[], report, .of_const fun _ => hrun _, by simp [hrequest],
      fun fromFunc toFunc h => absurd h (hnone fromFunc toFunc),
      fun _ => hret⟩

end Pview.Query
