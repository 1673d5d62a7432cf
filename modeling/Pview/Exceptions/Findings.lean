import Pview.Exceptions.Analyzer

/-!
# What the analyzer finds

`Finds` derives, one rule for each way an exception gets into a result, what
`throwsException` gathers with a number of levels left.  A statement is
analyzed with a set of caught exceptions, but each derivation uses at most one
of them, the exception that a rethrow reports.  The result of the walk is
exactly what can be derived, for none or one of the caught exceptions.
-/

namespace Pview.Exceptions

variable {T R F : Type} [DecidableEq T] [DecidableEq R]

def Passes (types : TypeInfo T R) : Option T → Raised T → Prop
  | none, _ => False
  | some caughtType, .type t => catches types caughtType t = false
  | some _, .unknown => True

def Enters (types : TypeInfo T R) : Option T → T → Prop
  | none, _ => True
  | some caughtType, t => catches types caughtType t = true

inductive Reaches (types : TypeInfo T R) :
    List (Option T × Stmt T F) → Option T × Stmt T F → Raised T → Prop
  | head {handler handlers x} :
      Reaches types (handler :: handlers) handler x
  | tail {first handler handlers x} (passed : Passes types first.1 x)
      (reached : Reaches types handlers handler x) :
      Reaches types (first :: handlers) handler x

theorem Reaches.mem {types : TypeInfo T R}
    {handlers : List (Option T × Stmt T F)} {handler : Option T × Stmt T F}
    {x : Raised T} (h : Reaches types handlers handler x) :
    handler ∈ handlers := by
  induction h with
  | head => exact List.mem_cons_self
  | tail _ _ ih => exact List.mem_cons_of_mem _ ih

theorem reaches_singleton {types : TypeInfo T R}
    {first handler : Option T × Stmt T F} {x : Raised T} :
    Reaches types [first] handler x ↔ handler = first := by
  constructor
  · intro h
    cases h with
    | head => rfl
    | tail _ reached => cases reached
  · rintro rfl
    exact .head

theorem has_filterByCatch_iff_passes (types : TypeInfo T R)
    (info : ExceptionInfo T) (caughtType : T) (x : Raised T) :
    (info.filterByCatch types caughtType).1.Has x ↔
      info.Has x ∧ Passes types (some caughtType) x := by
  rw [ExceptionInfo.has_filterByCatch]
  cases x <;> simp [Passes]

variable [DecidableEq F]

/-- With `levels` left and the functions of `callStack` entered, the analysis
of the node finds `x`; `caught` is the exception that a rethrow reports. -/
inductive Finds (prog : Program T R F) :
    Nat → Finset F → Option T → Node T F → Raised T → Prop
  | body {levels callStack caught func st x} (fresh : func ∉ callStack)
      (hbody : (prog.decl func).body = some st)
      (found : Finds prog levels (insert func callStack) none (.stmt st) x) :
      Finds prog (levels + 1) callStack caught (.func func) x
  | init {levels callStack caught func st init x} (fresh : func ∉ callStack)
      (hbody : (prog.decl func).body = some st)
      (hinit : init ∈ (prog.decl func).inits)
      (found : Finds prog levels (insert func callStack) none (.stmt init) x) :
      Finds prog (levels + 1) callStack caught (.func func) x
  | noBody {levels callStack caught func} (fresh : func ∉ callStack)
      (hbody : (prog.decl func).body = none) :
      Finds prog (levels + 1) callStack caught (.func func) .unknown
  | exception {levels callStack caught func t} (fresh : func ∉ callStack)
      (hbody : (prog.decl func).body = none)
      (hspec : t ∈ (prog.decl func).exceptions) :
      Finds prog (levels + 1) callStack caught (.func func) (.type t)
  | throw {levels callStack caught thrownType subExpr} :
      Finds prog (levels + 1) callStack caught
        (.stmt (.throwExpr thrownType subExpr)) (.type thrownType)
  | rethrow {levels callStack caught} :
      Finds prog (levels + 1) callStack (some caught) (.stmt .rethrowExpr)
        (.type caught)
  | uncaught {levels callStack caught tryBlock handlers x}
      (found : Finds prog levels callStack caught (.stmt tryBlock) x)
      (passed : ∀ handler ∈ handlers, Passes prog.types handler.1 x) :
      Finds prog (levels + 1) callStack caught
        (.stmt (.tryStmt tryBlock handlers)) x
  | caught {levels callStack caught tryBlock handlers handler t x}
      (thrown : Finds prog levels callStack caught (.stmt tryBlock) (.type t))
      (reached : Reaches prog.types handlers handler (.type t))
      (entered : Enters prog.types handler.1 t)
      (found : Finds prog levels callStack (some (handler.1.getD t))
        (.stmt handler.2) x) :
      Finds prog (levels + 1) callStack caught
        (.stmt (.tryStmt tryBlock handlers)) x
  | catchAll {levels callStack caught tryBlock handlers handlerBlock x}
      (hmem : (none, handlerBlock) ∈ handlers)
      (found : Finds prog levels callStack none (.stmt handlerBlock) x) :
      Finds prog (levels + 1) callStack caught
        (.stmt (.tryStmt tryBlock handlers)) x
  | call {levels callStack caught func children x}
      (found : Finds prog levels callStack none (.func func) x) :
      Finds prog (levels + 1) callStack caught
        (.stmt (.callExpr (some func) children)) x
  | construct {levels callStack caught constructor args x}
      (found : Finds prog levels callStack none (.func constructor) x) :
      Finds prog (levels + 1) callStack caught
        (.stmt (.constructExpr constructor args)) x
  | defaultInit {levels callStack caught expr x}
      (found : Finds prog levels callStack caught (.stmt expr) x) :
      Finds prog (levels + 1) callStack caught
        (.stmt (.defaultInitExpr expr)) x
  | child {levels callStack caught children child x}
      (hchild : child ∈ children)
      (found : Finds prog levels callStack caught (.stmt child) x) :
      Finds prog (levels + 1) callStack caught (.stmt (.other children)) x

namespace Finds

variable {prog : Program T R F} {levels : Nat} {callStack : Finset F}
  {caught : Option T} {node : Node T F} {x : Raised T}

theorem levels_pos (h : Finds prog levels callStack caught node x) :
    0 < levels := by
  cases h <;> omega

theorem succ (h : Finds prog levels callStack caught node x) :
    Finds prog (levels + 1) callStack caught node x := by
  induction h with
  | body fresh hbody _ ih => exact .body fresh hbody ih
  | init fresh hbody hinit _ ih => exact .init fresh hbody hinit ih
  | noBody fresh hbody => exact .noBody fresh hbody
  | exception fresh hbody hspec => exact .exception fresh hbody hspec
  | throw => exact .throw
  | rethrow => exact .rethrow
  | uncaught _ passed ih => exact .uncaught ih passed
  | caught _ reached entered _ ihThrown ihFound =>
      exact .caught ihThrown reached entered ihFound
  | catchAll hmem _ ih => exact .catchAll hmem ih
  | call _ ih => exact .call ih
  | construct _ ih => exact .construct ih
  | defaultInit _ ih => exact .defaultInit ih
  | child hchild _ ih => exact .child hchild ih

theorem mono {levels' : Nat} (hle : levels ≤ levels')
    (h : Finds prog levels callStack caught node x) :
    Finds prog levels' callStack caught node x := by
  induction hle with
  | refl => exact h
  | step _ ih => exact ih.succ

theorem weaken (h : Finds prog levels callStack none node x)
    (caught : Option T) : Finds prog levels callStack caught node x := by
  generalize hnone : (none : Option T) = before at h
  induction h with
  | body fresh hbody found => exact .body fresh hbody found
  | init fresh hbody hinit found => exact .init fresh hbody hinit found
  | noBody fresh hbody => exact .noBody fresh hbody
  | exception fresh hbody hspec => exact .exception fresh hbody hspec
  | throw => exact .throw
  | rethrow => cases hnone
  | uncaught _ passed ih => exact .uncaught (ih hnone) passed
  | caught _ reached entered found ihThrown =>
      exact .caught (ihThrown hnone) reached entered found
  | catchAll hmem found => exact .catchAll hmem found
  | call found => exact .call found
  | construct found => exact .construct found
  | defaultInit _ ih => exact .defaultInit (ih hnone)
  | child hchild _ ih => exact .child hchild (ih hnone)

end Finds

/-! ## What is found at each kind of node -/

section Nodes

variable {prog : Program T R F} {levels : Nat} {callStack : Finset F}
  {caught : Option T} {func : F} {x : Raised T}

@[simp] theorem not_finds_zero {node : Node T F} :
    ¬Finds prog 0 callStack caught node x := by
  intro h
  cases h

theorem finds_func_of_mem (hentered : func ∈ callStack) :
    ¬Finds prog levels callStack caught (.func func) x := by
  intro h
  cases h <;> contradiction

theorem finds_func_of_body {st : Stmt T F} (hfresh : func ∉ callStack)
    (hbody : (prog.decl func).body = some st) :
    Finds prog (levels + 1) callStack caught (.func func) x ↔
      Finds prog levels (insert func callStack) none (.stmt st) x ∨
      ∃ init ∈ (prog.decl func).inits,
        Finds prog levels (insert func callStack) none (.stmt init) x := by
  constructor
  · intro h
    cases h with
    | body _ hbody' found =>
        cases hbody.symm.trans hbody'
        exact .inl found
    | init _ _ hinit found => exact .inr ⟨_, hinit, found⟩
    | noBody _ hnone => cases hbody.symm.trans hnone
    | exception _ hnone _ => cases hbody.symm.trans hnone
  · rintro (found | ⟨init, hinit, found⟩)
    · exact .body hfresh hbody found
    · exact .init hfresh hbody hinit found

theorem Finds.of_func {st : Stmt T F}
    (h : Finds prog levels callStack caught (.func func) x)
    (hbody : (prog.decl func).body = some st)
    (hinits : (prog.decl func).inits = []) :
    ∃ fewer, Finds prog fewer (insert func callStack) none (.stmt st) x := by
  cases h with
  | body _ hbody' found =>
      cases hbody.symm.trans hbody'
      exact ⟨_, found⟩
  | init _ _ hinit _ => simp [hinits] at hinit
  | noBody _ hnone => cases hbody.symm.trans hnone
  | exception _ hnone _ => cases hbody.symm.trans hnone

theorem finds_func_of_noBody (hfresh : func ∉ callStack)
    (hbody : (prog.decl func).body = none) :
    Finds prog (levels + 1) callStack caught (.func func) x ↔
      x = .unknown ∨ ∃ t ∈ (prog.decl func).exceptions, x = .type t := by
  constructor
  · intro h
    cases h with
    | body _ hsome _ => cases hbody.symm.trans hsome
    | init _ hsome _ _ => cases hbody.symm.trans hsome
    | noBody _ _ => exact .inl rfl
    | exception _ _ hspec => exact .inr ⟨_, hspec, rfl⟩
  · rintro (rfl | ⟨t, hspec, rfl⟩)
    · exact .noBody hfresh hbody
    · exact .exception hfresh hbody hspec

@[simp] theorem not_finds_null :
    ¬Finds prog levels callStack caught (.stmt .null) x := by
  intro h
  cases h

@[simp] theorem finds_throwExpr {thrownType : T} {subExpr : Stmt T F} :
    Finds prog (levels + 1) callStack caught
      (.stmt (.throwExpr thrownType subExpr)) x ↔ x = .type thrownType := by
  constructor
  · intro h
    cases h
    rfl
  · rintro rfl
    exact .throw

@[simp] theorem finds_rethrowExpr :
    Finds prog (levels + 1) callStack caught (.stmt .rethrowExpr) x ↔
      ∃ t ∈ caught, x = .type t := by
  constructor
  · intro h
    cases h
    exact ⟨_, rfl, rfl⟩
  · rintro ⟨t, rfl, rfl⟩
    exact .rethrow

theorem finds_tryStmt {tryBlock : Stmt T F}
    {handlers : List (Option T × Stmt T F)} :
    Finds prog (levels + 1) callStack caught
      (.stmt (.tryStmt tryBlock handlers)) x ↔
    (Finds prog levels callStack caught (.stmt tryBlock) x ∧
      ∀ handler ∈ handlers, Passes prog.types handler.1 x) ∨
    (∃ handler t, Finds prog levels callStack caught (.stmt tryBlock)
        (.type t) ∧ Reaches prog.types handlers handler (.type t) ∧
      Enters prog.types handler.1 t ∧
      Finds prog levels callStack (some (handler.1.getD t)) (.stmt handler.2)
        x) ∨
    ∃ handlerBlock, (none, handlerBlock) ∈ handlers ∧
      Finds prog levels callStack none (.stmt handlerBlock) x := by
  constructor
  · intro h
    cases h with
    | uncaught found passed => exact .inl ⟨found, passed⟩
    | caught thrown reached entered found =>
        exact .inr (.inl ⟨_, _, thrown, reached, entered, found⟩)
    | catchAll hmem found => exact .inr (.inr ⟨_, hmem, found⟩)
  · rintro (⟨found, passed⟩ | ⟨handler, t, thrown, reached, entered, found⟩ |
      ⟨handlerBlock, hmem, found⟩)
    · exact .uncaught found passed
    · exact .caught thrown reached entered found
    · exact .catchAll hmem found

@[simp] theorem not_finds_indirect {children : List (Stmt T F)} :
    ¬Finds prog levels callStack caught (.stmt (.callExpr none children))
      x := by
  intro h
  cases h

@[simp] theorem finds_callExpr {children : List (Stmt T F)} :
    Finds prog (levels + 1) callStack caught
        (.stmt (.callExpr (some func) children)) x ↔
      Finds prog levels callStack none (.func func) x := by
  constructor
  · intro h
    cases h with
    | call found => exact found
  · exact .call

@[simp] theorem finds_constructExpr {args : List (Stmt T F)} :
    Finds prog (levels + 1) callStack caught
        (.stmt (.constructExpr func args)) x ↔
      Finds prog levels callStack none (.func func) x := by
  constructor
  · intro h
    cases h with
    | construct found => exact found
  · exact .construct

@[simp] theorem finds_defaultInitExpr {expr : Stmt T F} :
    Finds prog (levels + 1) callStack caught (.stmt (.defaultInitExpr expr))
        x ↔ Finds prog levels callStack caught (.stmt expr) x := by
  constructor
  · intro h
    cases h with
    | defaultInit found => exact found
  · exact .defaultInit

@[simp] theorem finds_other {children : List (Stmt T F)} :
    Finds prog (levels + 1) callStack caught (.stmt (.other children)) x ↔
      ∃ child ∈ children,
        Finds prog levels callStack caught (.stmt child) x := by
  constructor
  · intro h
    cases h with
    | child hchild found => exact ⟨_, hchild, found⟩
  · rintro ⟨child, hchild, found⟩
    exact .child hchild found

end Nodes

/-! ## The walk finds what can be derived -/

section Walk

variable (prog : Program T R F)

open ExceptionInfo

omit [DecidableEq R] [DecidableEq F] in
theorem has_mergeAll {α : Type} (throws : α → Id (ExceptionInfo T))
    (results : ExceptionInfo T) (children : List α) (x : Raised T) :
    (mergeAll throws results children).Has x ↔
      results.Has x ∨ ∃ child ∈ children, (throws child).Has x := by
  induction children generalizing results with
  | nil =>
      change results.Has x ↔ _
      simp
  | cons child children ih =>
      refine (ih (results.merge (throws child))).trans ?_
      simp [or_assoc]

/-- What the handlers add to the exceptions of the try block that none of them
catches; `found` is what the analysis of a handler block finds. -/
def HandlersFind (types : TypeInfo T R)
    (found : Option T → Stmt T F → Raised T → Prop) :
    List (Option T × Stmt T F) → (Raised T → Prop) → Raised T → Prop
  | [], thrown, x => thrown x
  | handler :: handlers, thrown, x =>
      (handler.1 = none ∧ found none handler.2 x) ∨
      (∃ t, thrown (.type t) ∧ Enters types handler.1 t ∧
        found (some (handler.1.getD t)) handler.2 x) ∨
      HandlersFind types found handlers
        (fun y => thrown y ∧ Passes types handler.1 y) x

omit [DecidableEq F] in
/-- A handler block is analyzed with a set of caught exceptions as if with none
and with each one by itself. -/
theorem has_throwsHandlers
    {throws : Finset T → Stmt T F → Id (ExceptionInfo T)}
    (found : Option T → Stmt T F → Raised T → Prop)
    (hthrows : ∀ caught st x, (throws caught st).Has x ↔
      found none st x ∨ ∃ t ∈ caught, found (some t) st x)
    (hweaken : ∀ t st x, found none st x → found (some t) st x)
    (handlers : List (Option T × Stmt T F)) (results uncaught : ExceptionInfo T)
    (x : Raised T) :
    (throwsHandlers prog throws handlers results uncaught).Has x ↔
      results.Has x ∨
        HandlersFind prog.types found handlers uncaught.Has x := by
  induction handlers generalizing results uncaught with
  | nil => exact has_merge results uncaught x
  | cons handler handlers ih =>
      obtain ⟨_ | caughtType, handlerBlock⟩ := handler
      · have hclear : (clear : ExceptionInfo T).Has = fun y =>
            uncaught.Has y ∧ Passes prog.types none y := by
          funext y
          simp [Passes]
        refine (ih _ _).trans ?_
        simp only [has_merge, hthrows, hclear, HandlersFind, Enters,
          Option.getD_none, true_and, has_type, or_assoc]
      · have hpassed : (uncaught.filterByCatch prog.types caughtType).1.Has =
            fun y => uncaught.Has y ∧
              Passes prog.types (some caughtType) y := by
          funext y
          exact propext (has_filterByCatch_iff_passes _ _ _ y)
        have hfound : (throws {caughtType} handlerBlock).Has x ↔
            found (some caughtType) handlerBlock x := by
          simpa [hthrows] using hweaken caughtType handlerBlock x
        simp only [throwsHandlers]
        split
        · rename_i hfiltered
          obtain ⟨t, hthrown, hcaught⟩ :=
            (filterByCatch_filtered prog.types _ _).1 hfiltered
          have hentered : (∃ t, uncaught.Has (.type t) ∧
              Enters prog.types (some caughtType) t ∧
              found (some caughtType) handlerBlock x) ↔
              found (some caughtType) handlerBlock x := by
            constructor
            · rintro ⟨-, -, -, h⟩
              exact h
            · intro h
              exact ⟨t, hthrown, hcaught, h⟩
          refine (ih _ _).trans ?_
          simp only [HandlersFind, Option.getD_some, hentered, has_merge,
            hpassed, or_assoc]
          simp [hfound]
        · rename_i hfiltered
          have hentered : ¬∃ t, uncaught.Has (.type t) ∧
              Enters prog.types (some caughtType) t ∧
              found (some caughtType) handlerBlock x := by
            rintro ⟨t, hthrown, hcaught, -⟩
            exact hfiltered ((filterByCatch_filtered prog.types _ _).2
              ⟨t, hthrown, hcaught⟩)
          refine (ih _ _).trans ?_
          simp only [HandlersFind, Option.getD_some, hentered, hpassed]
          simp

omit [DecidableEq F] in
theorem handlersFind_iff (types : TypeInfo T R)
    {found : Option T → Stmt T F → Raised T → Prop}
    (handlers : List (Option T × Stmt T F)) (thrown : Raised T → Prop)
    (x : Raised T) :
    HandlersFind types found handlers thrown x ↔
      (thrown x ∧ ∀ handler ∈ handlers, Passes types handler.1 x) ∨
      (∃ handler t, thrown (.type t) ∧
        Reaches types handlers handler (.type t) ∧ Enters types handler.1 t ∧
        found (some (handler.1.getD t)) handler.2 x) ∨
      ∃ handlerBlock, (none, handlerBlock) ∈ handlers ∧
        found none handlerBlock x := by
  induction handlers generalizing thrown with
  | nil =>
      constructor
      · intro h
        exact .inl ⟨h, by simp⟩
      · rintro (h | ⟨handler, t, -, hreached, -⟩ | ⟨handlerBlock, hmem, -⟩)
        · exact h.1
        · cases hreached
        · cases hmem
  | cons handler handlers ih =>
      simp only [HandlersFind, ih]
      constructor
      · rintro (⟨hnone, hfound⟩ | ⟨t, hthrown, hentered, hfound⟩ |
          ⟨⟨hthrown, hpassed⟩, hall⟩ |
          ⟨later, t, ⟨hthrown, hpassed⟩, hreached, hrest⟩ |
          ⟨handlerBlock, hmem, hfound⟩)
        · right; right
          exact ⟨handler.2, by simp [← hnone], hfound⟩
        · right; left
          exact ⟨handler, t, hthrown, .head, hentered, hfound⟩
        · left
          exact ⟨hthrown, List.forall_mem_cons.2 ⟨hpassed, hall⟩⟩
        · right; left
          exact ⟨later, t, hthrown, .tail hpassed hreached, hrest⟩
        · right; right
          exact ⟨handlerBlock, List.mem_cons_of_mem _ hmem, hfound⟩
      · rintro (⟨hthrown, hall⟩ | ⟨later, t, hthrown, hreached, hrest⟩ |
          ⟨handlerBlock, hmem, hfound⟩)
        · obtain ⟨hpassed, hall⟩ := List.forall_mem_cons.1 hall
          right; right; left
          exact ⟨⟨hthrown, hpassed⟩, hall⟩
        · cases hreached with
          | head =>
              right; left
              exact ⟨t, hthrown, hrest⟩
          | tail hpassed hreached =>
              right; right; right; left
              exact ⟨later, t, ⟨hthrown, hpassed⟩, hreached, hrest⟩
        · rcases List.mem_cons.1 hmem with hfirst | hmem
          · left
            subst hfirst
            exact ⟨rfl, hfound⟩
          · right; right; right; right
            exact ⟨handlerBlock, hmem, hfound⟩

omit [DecidableEq T] in
theorem exists_among {caught : Finset T} {p : Option T → Prop} :
    (∃ t?, (∀ t ∈ t?, t ∈ caught) ∧ p t?) ↔
      p none ∨ ∃ t ∈ caught, p (some t) := by
  simp [Option.exists]

omit [DecidableEq T] in
@[simp] theorem exists_among_const {caught : Finset T} {p : Prop} :
    (∃ t?, (∀ t ∈ (t? : Option T), t ∈ caught) ∧ p) ↔ p := by
  constructor
  · rintro ⟨_, _, h⟩
    exact h
  · intro h
    exact ⟨none, by simp, h⟩

theorem has_throwsFuncStep {levels : Nat} {callStack : Finset F} {func : F}
    {x : Raised T} (hfresh : func ∉ callStack)
    {throws : Stmt T F → Id (ExceptionInfo T)}
    (hthrows : ∀ st, (throws st).Has x ↔
      Finds prog levels (insert func callStack) none (.stmt st) x) :
    (throwsFuncStep prog throws func).Has x ↔
      Finds prog (levels + 1) callStack none (.func func) x := by
  simp only [throwsFuncStep]
  split
  · rename_i body hbody
    rw [finds_func_of_body hfresh hbody]
    refine (has_mergeAll throws (throws body) _ x).trans ?_
    simp only [hthrows]
  · rename_i hbody
    rw [finds_func_of_noBody hfresh hbody]
    refine (has_foldl_registerException createUnknown _ x).trans ?_
    rw [has_createUnknown]

theorem has_throwsStmtStep {levels : Nat} {callStack : Finset F}
    {throws : Finset T → Stmt T F → Id (ExceptionInfo T)}
    {throwsCallee : F → Id (ExceptionInfo T)}
    (hthrows : ∀ caught st x, (throws caught st).Has x ↔
      ∃ t?, (∀ t ∈ t?, t ∈ caught) ∧
        Finds prog levels callStack t? (.stmt st) x)
    (hcallee : ∀ func x, (throwsCallee func).Has x ↔
      Finds prog levels callStack none (.func func) x)
    (caught : Finset T) (st : Stmt T F) (x : Raised T) :
    (throwsStmtStep prog throws throwsCallee caught st).Has x ↔
      ∃ t?, (∀ t ∈ t?, t ∈ caught) ∧
        Finds prog (levels + 1) callStack t? (.stmt st) x := by
  have hstart : ¬(createNonThrowing : ExceptionInfo T).Has x :=
    not_has_createNonThrowing x
  cases st with
  | null => exact iff_of_false hstart (by simp)
  | throwExpr thrownType subExpr =>
      refine (has_registerException createNonThrowing _ x).trans ?_
      simp only [hstart, false_or, finds_throwExpr, exists_among_const]
  | rethrowExpr =>
      refine (has_registerExceptions createNonThrowing _ x).trans ?_
      simp
  | tryStmt tryBlock handlers =>
      refine (has_throwsHandlers prog
        (fun t? st x => Finds prog levels callStack t? (.stmt st) x)
        (fun caught st x => (hthrows caught st x).trans exists_among)
        (fun t st x h => h.weaken (some t)) handlers _ _ x).trans ?_
      rw [handlersFind_iff]
      simp only [hthrows, hstart, false_or, finds_tryStmt]
      constructor
      · rintro (⟨⟨t?, hamong, hfound⟩, hpassed⟩ |
          ⟨handler, t, ⟨t?, hamong, hthrown⟩, hhandler⟩ | hcatchAll)
        · exact ⟨t?, hamong, .inl ⟨hfound, hpassed⟩⟩
        · exact ⟨t?, hamong, .inr (.inl ⟨handler, t, hthrown, hhandler⟩)⟩
        · exact ⟨none, by simp, .inr (.inr hcatchAll)⟩
      · rintro ⟨t?, hamong, ⟨hfound, hpassed⟩ |
          ⟨handler, t, hthrown, hhandler⟩ | hcatchAll⟩
        · exact .inl ⟨⟨t?, hamong, hfound⟩, hpassed⟩
        · exact .inr (.inl ⟨handler, t, ⟨t?, hamong, hthrown⟩, hhandler⟩)
        · exact .inr (.inr hcatchAll)
  | callExpr directCallee children =>
      cases directCallee with
      | none => exact iff_of_false hstart (by simp)
      | some func =>
          refine (has_merge createNonThrowing _ x).trans ?_
          simp only [hstart, false_or, hcallee, finds_callExpr,
            exists_among_const]
  | constructExpr constructor args =>
      refine (has_merge createNonThrowing _ x).trans ?_
      simp only [hstart, false_or, hcallee, finds_constructExpr,
        exists_among_const]
  | defaultInitExpr expr =>
      refine (has_merge createNonThrowing _ x).trans ?_
      simp only [hstart, false_or, hthrows, finds_defaultInitExpr]
  | other children =>
      refine (has_mergeAll (throws caught) createNonThrowing children x).trans ?_
      simp only [hstart, false_or, hthrows, finds_other]
      constructor
      · rintro ⟨child, hchild, t?, hamong, hfound⟩
        exact ⟨t?, hamong, child, hchild, hfound⟩
      · rintro ⟨t?, hamong, child, hchild, hfound⟩
        exact ⟨child, hchild, t?, hamong, hfound⟩

theorem has_throws (levels : Nat) :
    (∀ callStack func x,
      (throwsFunc (m := Id) prog createNonThrowing levels callStack
        func).Has x ↔ Finds prog levels callStack none (.func func) x) ∧
    ∀ callStack caught st x,
      (throwsStmt (m := Id) prog createNonThrowing levels callStack caught
        st).Has x ↔ ∃ t?, (∀ t ∈ t?, t ∈ caught) ∧
          Finds prog levels callStack t? (.stmt st) x := by
  have hnothing : ∀ x, ¬(createNonThrowing : ExceptionInfo T).Has x :=
    not_has_createNonThrowing
  induction levels with
  | zero =>
      constructor
      · intro callStack func x
        refine iff_of_false ?_ not_finds_zero
        simp only [throwsFunc]
        split <;> exact hnothing x
      · intro callStack caught st x
        exact iff_of_false (hnothing x) (by simp)
  | succ levels ih =>
      obtain ⟨ihFunc, ihStmt⟩ := ih
      constructor
      · intro callStack func x
        simp only [throwsFunc]
        split
        · rename_i hentered
          exact iff_of_false (hnothing x) (finds_func_of_mem hentered)
        · rename_i hfresh
          refine has_throwsFuncStep prog hfresh fun st => ?_
          rw [ihStmt, exists_among]
          simp
      · intro callStack caught st x
        exact has_throwsStmtStep prog (ihStmt callStack) (ihFunc callStack)
          caught st x

theorem has_throwsException (levels : Nat) (node : Node T F) (x : Raised T) :
    (Analyzer.throwsException prog levels node).Has x ↔
      Finds prog levels ∅ none node x := by
  cases node with
  | func func => exact (has_throws prog levels).1 ∅ func x
  | stmt st =>
      refine ((has_throws prog levels).2 ∅ ∅ st x).trans ?_
      rw [exists_among]
      simp

end Walk

end Pview.Exceptions
