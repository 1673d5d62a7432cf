import Mathlib.Algebra.Order.Ring.Int
import Mathlib.Data.List.MinMax
import Pview.Query.CallPath

/-!
# Callees and callers

`--callee_of` goes from a name to the USRs of its definitions and on to the
names in their calls; `--caller_of` goes from a name to the USRs in the calls
to it and on to the names of their definitions.  The names in the statements
need no escaping, so a literal denotes the name it is made of.

A query is not started for an empty name.
-/

namespace Pview.Query

open Pview.Foundation
open Pview.MySQL

inductive LogLine where
  | error (text : String)
  | warning (text : String)
  | info (text : String)
  /-- A line that is the name of a function. -/
  | name (qualified : String)
  deriving DecidableEq, Repr

structure Report where
  ret : Int
  lines : List LogLine
  deriving DecidableEq, Repr

def Report.Prints (report : Report) (qualified : String) : Prop :=
  .name qualified ∈ report.lines

/-! ## Queries -/

def queryFuncDefUsrUsingQualified (table : List FuncDefRow)
    (qualified : String) : List String :=
  (table.filter fun row => row.qualified = qualified).map FuncDefRow.usr

def queryFuncCallCallerUsrUsingQualified (table : List FuncCallRow)
    (qualified : String) : List String :=
  (table.filter fun row => row.qualified = qualified).map
    FuncCallRow.callerUsr

local instance intPreorder : Preorder Int :=
  instLatticeInt.toSemilatticeInf.toPreorder

/-- The latest definition comes first, and only it is looked at. -/
def queryFuncDefQualifiedUsingFuncDefUsr (table : List FuncDefRow)
    (funcDefUsr : String) : String :=
  match (table.filter fun row => row.usr = funcDefUsr).argmax
      FuncDefRow.createTime with
  | some row => row.qualified
  | none => ""

private theorem exists_mem_select {ρ : Type*} (table : List ρ)
    (where_ : ρ → Prop) [DecidablePred where_] (column : ρ → String)
    (Q : String → Prop) :
    (∃ value ∈ (table.filter fun row => where_ row).map column, Q value) ↔
      ∃ row ∈ table, where_ row ∧ Q (column row) := by
  constructor
  · rintro ⟨value, hvalue, hQ⟩
    obtain ⟨row, hrow, rfl⟩ := List.mem_map.mp hvalue
    rw [List.mem_filter, decide_eq_true_eq] at hrow
    exact ⟨row, hrow.1, hrow.2, hQ⟩
  · rintro ⟨row, hrow, hwhere, hQ⟩
    exact ⟨column row, List.mem_map_of_mem
      (List.mem_filter.mpr ⟨hrow, decide_eq_true hwhere⟩), hQ⟩

/-! ## Callees -/

/-- The loop over `all_caller_usr`: its lines, and `founded` at its end. -/
def calleeOfLoop (table : List FuncCallRow) :
    List String → Int → List LogLine × Int
  | [], founded => ([], founded)
  | callerUsr :: rest, founded =>
      let fcQualified :=
        (queryFuncCallUsrQualifiedUsingCallerUsr table callerUsr).map Prod.snd
      if fcQualified.isEmpty then
        calleeOfLoop table rest founded
      else
        let founded := founded + 1
        let (lines, total) := calleeOfLoop table rest founded
        (.info ("---------- callee of " ++ callerUsr ++ " -----------") ::
            fcQualified.map .name ++
            .info ("---------- END (" ++ toString founded ++
              ") -----------") :: lines,
          total)

def doQueryCalleeOf (conn : Option Index) (calleeOf : String) : Report :=
  match conn with
  | none =>
      ⟨1, [.error
        "Fail to create mysql connection. Can't search callee."]⟩
  | some index =>
      let allCallerUsr :=
        queryFuncDefUsrUsingQualified index.funcDefinitions calleeOf
      if allCallerUsr.isEmpty then
        ⟨1, [.warning
          ("Cannot find USR using qualified name: " ++ calleeOf)]⟩
      else
        let (lines, founded) := calleeOfLoop index.funcCalls allCallerUsr 0
        ⟨0, lines ++ if founded ≤ 0 then
          [.warning ("Cannot find callee of " ++ calleeOf)] else []⟩

private theorem name_mem_calleeOfLoop (table : List FuncCallRow)
    (usrs : List String) (founded : Int) (qualified : String) :
    .name qualified ∈ (calleeOfLoop table usrs founded).1 ↔
      ∃ usr ∈ usrs, ∃ row ∈ table, row.callerUsr = usr ∧
        row.qualified = qualified := by
  induction usrs generalizing founded with
  | nil => simp [calleeOfLoop]
  | cons usr rest ih =>
      have hcalls : qualified ∈ (queryFuncCallUsrQualifiedUsingCallerUsr
            table usr).map Prod.snd ↔
          ∃ row ∈ table, row.callerUsr = usr ∧ row.qualified = qualified := by
        simp [queryFuncCallUsrQualifiedUsingCallerUsr, and_assoc]
      rw [calleeOfLoop, List.exists_mem_cons_iff, ← hcalls]
      split
      · rename_i hempty
        rw [ih, List.isEmpty_iff.mp hempty]
        simp
      · simp [ih]

theorem doQueryCalleeOf_prints_iff (index : Index)
    (calleeOf qualified : String) :
    (doQueryCalleeOf (some index) calleeOf).Prints qualified ↔
      ∃ d ∈ index.funcDefinitions, d.qualified = calleeOf ∧
        ∃ c ∈ index.funcCalls, c.callerUsr = d.usr ∧
          c.qualified = qualified := by
  rw [← exists_mem_select index.funcDefinitions (·.qualified = calleeOf)
    FuncDefRow.usr fun usr => ∃ c ∈ index.funcCalls, c.callerUsr = usr ∧
      c.qualified = qualified, ← queryFuncDefUsrUsingQualified,
    doQueryCalleeOf, Report.Prints]
  split
  · rename_i hempty
    rw [List.isEmpty_iff.mp hempty]
    simp
  · rw [← name_mem_calleeOfLoop index.funcCalls _ 0, List.mem_append]
    apply or_iff_left
    split <;> simp

/-! ## Callers -/

def callerOfLine (table : List FuncDefRow) (funcDefUsr : String) : LogLine :=
  if funcDefUsr.isEmpty then
    .warning "Invalid empty func_def_usr"
  else
    let qualified := queryFuncDefQualifiedUsingFuncDefUsr table funcDefUsr
    if qualified.isEmpty then
      .warning ("Cannot find qualified func def using USR " ++ funcDefUsr ++
        ", maybe the database is not setup correctly")
    else
      .name qualified

def doQueryCallerOf (conn : Option Index) (callerOf : String) : Report :=
  match conn with
  | none =>
      ⟨1, [.error
        "Fail to create mysql connection. Can't search caller."]⟩
  | some index =>
      let callerUsr :=
        queryFuncCallCallerUsrUsingQualified index.funcCalls callerOf
      if callerUsr.isEmpty then
        ⟨1, [.warning
          ("Cannot find caller using callee qualified name " ++ callerOf)]⟩
      else
        ⟨0, .info ("----------- caller of " ++ callerOf ++
            "-------------") ::
          callerUsr.map (callerOfLine index.funcDefinitions) ++
          [.info "----------- END -------------"]⟩

private theorem callerOfLine_eq_name_iff (table : List FuncDefRow)
    (funcDefUsr qualified : String) :
    callerOfLine table funcDefUsr = .name qualified ↔
      funcDefUsr ≠ "" ∧ qualified ≠ "" ∧
        queryFuncDefQualifiedUsingFuncDefUsr table funcDefUsr = qualified := by
  simp only [callerOfLine, String.isEmpty_iff]
  by_cases husr : funcDefUsr = ""
  · simp [husr]
  rw [if_neg husr]
  by_cases hfound : queryFuncDefQualifiedUsingFuncDefUsr table funcDefUsr = ""
  · rw [if_pos hfound, hfound]
    simp only [reduceCtorEq, false_iff, not_and]
    exact fun _ hne heq => hne heq.symm
  · rw [if_neg hfound, LogLine.name.injEq]
    constructor
    · rintro rfl
      exact ⟨husr, hfound, rfl⟩
    · exact fun h => h.2.2

theorem doQueryCallerOf_prints_iff (index : Index)
    (callerOf qualified : String) :
    (doQueryCallerOf (some index) callerOf).Prints qualified ↔
      ∃ c ∈ index.funcCalls, c.qualified = callerOf ∧ c.callerUsr ≠ "" ∧
        qualified ≠ "" ∧ queryFuncDefQualifiedUsingFuncDefUsr
          index.funcDefinitions c.callerUsr = qualified := by
  simp only [← callerOfLine_eq_name_iff]
  rw [← exists_mem_select index.funcCalls (·.qualified = callerOf)
    FuncCallRow.callerUsr fun usr =>
      callerOfLine index.funcDefinitions usr = .name qualified,
    ← queryFuncCallCallerUsrUsingQualified, doQueryCallerOf, Report.Prints]
  split
  · rename_i hempty
    rw [List.isEmpty_iff.mp hempty]
    simp
  · simp

/-! ## Both directions -/

/-- The USR is the primary key, so its definition is the latest one. -/
theorem queryFuncDefQualified_eq_iff (index : Index) {usr qualified : String}
    (hqualified : qualified ≠ "") :
    queryFuncDefQualifiedUsingFuncDefUsr index.funcDefinitions usr = qualified ↔
      ∃ d ∈ index.funcDefinitions, d.usr = usr ∧ d.qualified = qualified := by
  unfold queryFuncDefQualifiedUsingFuncDefUsr
  cases hlatest : (index.funcDefinitions.filter fun row =>
      row.usr = usr).argmax FuncDefRow.createTime with
  | none =>
      have hnone := List.argmax_eq_none.mp hlatest
      simp only [List.filter_eq_nil_iff, decide_eq_true_eq] at hnone
      constructor
      · exact fun h => absurd h.symm hqualified
      · rintro ⟨d, hd, husr, -⟩
        exact absurd husr (hnone d hd)
  | some row =>
      have hrow : row ∈ index.funcDefinitions ∧ row.usr = usr := by
        simpa using List.argmax_mem hlatest
      constructor
      · exact fun h => ⟨row, hrow.1, hrow.2, h⟩
      · rintro ⟨d, hd, husr, rfl⟩
        rw [List.inj_on_of_nodup_map index.usrKey hrow.1 hd
          (hrow.2.trans husr.symm)]

/--
What `--callee_of` prints for `f` are exactly the functions for which
`--caller_of` prints `f`.
-/
theorem calleeOf_iff_callerOf (index : Index)
    (hnames : ∀ d ∈ index.funcDefinitions, d.usr ≠ "" ∧ d.qualified ≠ "")
    {f g : String} (hf : f ≠ "") :
    (doQueryCalleeOf (some index) f).Prints g ↔
      (doQueryCallerOf (some index) g).Prints f := by
  rw [doQueryCalleeOf_prints_iff, doQueryCallerOf_prints_iff]
  constructor
  · rintro ⟨d, hd, hqualified, c, hc, hcaller, hcallee⟩
    refine ⟨c, hc, hcallee, hcaller ▸ (hnames d hd).1, hf, ?_⟩
    rw [queryFuncDefQualified_eq_iff index hf]
    exact ⟨d, hd, hcaller.symm, hqualified⟩
  · rintro ⟨c, hc, hcallee, -, -, hlatest⟩
    rw [queryFuncDefQualified_eq_iff index hf] at hlatest
    obtain ⟨d, hd, husr, hqualified⟩ := hlatest
    exact ⟨d, hd, hqualified, c, hc, husr.symm, hcallee⟩

def helperIndex : Index where
  funcDefinitions :=
    [⟨1, 0, "c:@F@main", "main", 0, 1, 1⟩,
     ⟨2, 0, "c:@F@helper", "helper", 0, 1, 5⟩]
  funcCalls := helperTable
  usrKey := by decide
  funcCallIdKey := by decide

theorem calleeOf_iff_callerOf_helper :
    doQueryCallerOf (some helperIndex) "helper" =
      ⟨0, [.info "----------- caller of helper-------------", .name "main",
        .info "----------- END -------------"]⟩ ∧
    ((doQueryCalleeOf (some helperIndex) "main").Prints "helper" ↔
      (doQueryCallerOf (some helperIndex) "helper").Prints "main") :=
  ⟨by decide +kernel, calleeOf_iff_callerOf helperIndex (by decide) (by decide)⟩

end Pview.Query
