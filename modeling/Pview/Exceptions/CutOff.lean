import Pview.Exceptions.Places
import Pview.Exceptions.Reports

/-!
# What the level limit cuts off

Nothing in a report says whether the level limit cut the walk off: what lies
behind the limit is missing from the result as if it did not throw.  Where
nothing that throws lies behind it, a higher limit reports the same.
-/

namespace Pview.Exceptions

variable {T R F : Type} [DecidableEq T] [DecidableEq R] [DecidableEq F]

inductive Throws (prog : Program T R F) : Place T F → Raised T → Prop
  | throw {callStack caught context thrownType subExpr} :
      Throws prog
        ⟨callStack, caught, .stmt (.throwExpr thrownType subExpr), context⟩
        (.type thrownType)
  | rethrow {callStack caught context t} (hmem : t ∈ caught) :
      Throws prog ⟨callStack, caught, .stmt .rethrowExpr, context⟩ (.type t)
  | noBody {callStack caught context func} (fresh : func ∉ callStack)
      (hbody : (prog.decl func).body = none) :
      Throws prog ⟨callStack, caught, .func func, context⟩ .unknown
  | exception {callStack caught context func t} (fresh : func ∉ callStack)
      (hbody : (prog.decl func).body = none)
      (hspec : t ∈ (prog.decl func).exceptions) :
      Throws prog ⟨callStack, caught, .func func, context⟩ (.type t)

/-- Whatever throws, or has no body, in the part of the function that an
analysis with `top` levels gets to, lies less than `bound` levels deep. -/
def Shallow (prog : Program T R F) (func : F) (bound top : Nat) : Prop :=
  ∀ levels place x, Visits prog func top (levels + 1) place →
    Throws prog place x → top ≤ bound + levels

namespace Finds

variable {prog : Program T R F} {func : F} {bound top levels : Nat}
  {callStack : Finset F} {t? : Option T} {node : Node T F} {x : Raised T}

theorem sub_add_one
    (h : Finds prog (levels - (top - bound)) callStack t? node x) :
    levels + 1 - (top - bound) = levels - (top - bound) + 1 := by
  have := h.levels_pos
  omega

theorem of_shallow (hshallow : Shallow prog func bound top)
    (h : Finds prog levels callStack t? node x) {caught : Set T}
    {context : Set (Raised T)}
    (hvisits : Visits prog func top levels ⟨callStack, caught, node, context⟩)
    (hcaught : ∀ t ∈ t?, t ∈ caught) :
    Finds prog (levels - (top - bound)) callStack t? node x := by
  have hsource : ∀ {levels place x}, Visits prog func top (levels + 1) place →
      Throws prog place x →
      levels + 1 - (top - bound) = levels - (top - bound) + 1 := by
    intro levels place x hvisits hthrows
    have := hshallow levels place x hvisits hthrows
    omega
  induction h generalizing caught context with
  | body fresh hbody _ ih =>
      have hfinds := ih (hvisits.step (.body fresh hbody)) (by simp)
      rw [hfinds.sub_add_one]
      exact .body fresh hbody hfinds
  | init fresh hbody hinit _ ih =>
      have hfinds := ih (hvisits.step (.init fresh hbody hinit)) (by simp)
      rw [hfinds.sub_add_one]
      exact .init fresh hbody hinit hfinds
  | noBody fresh hbody =>
      rw [hsource hvisits (.noBody fresh hbody)]
      exact .noBody fresh hbody
  | exception fresh hbody hspec =>
      rw [hsource hvisits (.exception fresh hbody hspec)]
      exact .exception fresh hbody hspec
  | throw =>
      rw [hsource hvisits .throw]
      exact .throw
  | @rethrow _ _ t =>
      rw [hsource hvisits (.rethrow (hcaught t rfl))]
      exact .rethrow
  | uncaught _ passed ih =>
      have hfinds := ih (hvisits.step .tryBlock) hcaught
      rw [hfinds.sub_add_one]
      exact .uncaught hfinds passed
  | caught thrown reached entered _ ihThrown ihFound =>
      obtain ⟨hlooked, hrethrown⟩ := looksInto_of_enters
        (fun t => Gathers prog _ _ caught _ (.type t))
        ⟨_, hcaught, thrown⟩ reached entered
      have hthrown := ihThrown (hvisits.step .tryBlock) hcaught
      have hfinds := ihFound (hvisits.step (.handler hlooked))
        (by simpa using hrethrown)
      rw [hfinds.sub_add_one]
      exact .caught hthrown reached entered hfinds
  | catchAll hmem _ ih =>
      have hfinds := ih (hvisits.step (.handler ⟨hmem, .inl rfl⟩)) (by simp)
      rw [hfinds.sub_add_one]
      exact .catchAll hmem hfinds
  | call _ ih =>
      have hfinds := ih (hvisits.step .callee) (by simp)
      rw [hfinds.sub_add_one]
      exact .call hfinds
  | construct _ ih =>
      have hfinds := ih (hvisits.step .constructor) (by simp)
      rw [hfinds.sub_add_one]
      exact .construct hfinds
  | defaultInit _ ih =>
      have hfinds := ih (hvisits.step .defaultInit) hcaught
      rw [hfinds.sub_add_one]
      exact .defaultInit hfinds
  | child hchild _ ih =>
      have hfinds := ih (hvisits.step (.child hchild)) hcaught
      rw [hfinds.sub_add_one]
      exact .child hchild hfinds

end Finds

namespace Analyzer

variable (prog : Program T R F) (ignoredExceptions : List String)
variable (ignoreBadAlloc : Bool) (func : F)

/-- What does not throw at one level does not at another, if nothing that
throws lies beyond the first. -/
theorem notThrowing_kept (level level' : Int)
    (hshallow : Shallow prog func level.toNat level'.toNat)
    (hbehaviour : (report prog level ignoredExceptions ignoreBadAlloc
      func).behaviour = .notThrowing) :
    (report prog level' ignoredExceptions ignoreBadAlloc func).behaviour =
      .notThrowing := by
  rw [report_notThrowing_iff] at hbehaviour ⊢
  rintro ⟨x, hfinds, hcounts⟩
  have hwithin := hfinds.of_shallow hshallow .start (by simp)
  exact hbehaviour ⟨x, hwithin.mono (by omega), hcounts⟩

end Analyzer

/-- `try { throw 0; } catch (...) {}` -/
def swallows : Program Unit Unit Unit where
  types := ⟨fun _ => none, fun _ _ => true, fun _ => none⟩
  decl := fun _ =>
    ⟨some (.tryStmt (.throwExpr () (.other [])) [(none, .other [])]), [], []⟩

namespace swallows

theorem place_cases {top levels : Nat} {place : Place Unit Unit}
    (h : Visits swallows () top levels place) :
    place.node = .func () ∧ levels = top ∨
    place.node = .stmt (.tryStmt (.throwExpr () (.other []))
      [(none, .other [])]) ∧ levels + 1 = top ∨
    place.node = .stmt (.throwExpr () (.other [])) ∧ levels + 2 = top ∨
    place.node = .stmt (.other []) := by
  induction h with
  | start => exact .inl ⟨rfl, rfl⟩
  | step _ goes ih =>
      cases goes with
      | body _ hbody =>
          cases hbody
          exact .inr (.inl ⟨rfl, by simpa using ih⟩)
      | init _ _ hinit => cases hinit
      | handler looked =>
          obtain ⟨⟨rfl, rfl⟩, -⟩ := by simpa using ih
          obtain rfl := List.mem_singleton.1 looked.1
          exact .inr (.inr (.inr rfl))
      | _ => simp_all

theorem shallow (top : Nat) : Shallow swallows () 3 top := by
  intro levels place x hvisits hthrows
  have hplace := place_cases hvisits
  cases hthrows with
  | throw =>
      obtain ⟨-, hdepth⟩ := by simpa using hplace
      omega
  | noBody _ hbody => cases hbody
  | exception _ hbody _ => cases hbody
  | rethrow _ => simp at hplace

end swallows

namespace Analyzer

theorem notThrowing_kept_swallows :
    (report swallows 20 ["AssertionError"] true ()).behaviour =
      .notThrowing :=
  notThrowing_kept swallows ["AssertionError"] true () 3 20
    (swallows.shallow 20) (by decide +kernel)

/-- `throw 0` below so many statements. -/
def nested : Nat → Stmt Unit Unit
  | 0 => .throwExpr () (.other [])
  | depth + 1 => .other [nested depth]

def nestedProgram (depth : Nat) : Program Unit Unit Unit where
  types := ⟨fun _ => none, fun _ _ => true, fun _ => none⟩
  decl := fun _ => ⟨some (nested depth), [], []⟩

/-- The level of `func_might_throw` and the next one. -/
theorem notThrowing_not_kept :
    ¬∀ level level' : Int, level ≤ level' →
      (report (nestedProgram 19) level ["AssertionError"] true ()).behaviour =
        .notThrowing →
      (report (nestedProgram 19) level' ["AssertionError"] true ()).behaviour =
        .notThrowing := by
  intro hkept
  have hcut : (report (nestedProgram 19) 20 ["AssertionError"] true
      ()).behaviour = .notThrowing := by decide +kernel
  have hseen : (report (nestedProgram 19) 21 ["AssertionError"] true
      ()).behaviour = .throwing := by decide +kernel
  have hbehaviour := hkept 20 21 (by decide) hcut
  rw [hseen] at hbehaviour
  cases hbehaviour

end Analyzer

/-! ## Functions without try statements -/

section TryFree

variable {prog : Program T R F} {func : F}

theorem Finds.exists_throws {top levels : Nat} {callStack : Finset F}
    {t? : Option T} {node : Node T F} {x : Raised T}
    (h : Finds prog levels callStack t? node x) {caught : Set T}
    {context : Set (Raised T)}
    (hvisits : Visits prog func top levels ⟨callStack, caught, node, context⟩)
    (hcaught : ∀ t ∈ t?, t ∈ caught) :
    ∃ levels place, Visits prog func top (levels + 1) place ∧
      Throws prog place x := by
  induction h generalizing caught context with
  | body fresh hbody _ ih =>
      exact ih (hvisits.step (.body fresh hbody)) (by simp)
  | init fresh hbody hinit _ ih =>
      exact ih (hvisits.step (.init fresh hbody hinit)) (by simp)
  | noBody fresh hbody => exact ⟨_, _, hvisits, .noBody fresh hbody⟩
  | exception fresh hbody hspec =>
      exact ⟨_, _, hvisits, .exception fresh hbody hspec⟩
  | throw => exact ⟨_, _, hvisits, .throw⟩
  | @rethrow _ _ t => exact ⟨_, _, hvisits, .rethrow (hcaught t rfl)⟩
  | uncaught _ _ ih => exact ih (hvisits.step .tryBlock) hcaught
  | caught thrown reached entered _ _ ih =>
      obtain ⟨hlooked, hrethrown⟩ := looksInto_of_enters
        (fun t => Gathers prog _ _ caught _ (.type t))
        ⟨_, hcaught, thrown⟩ reached entered
      exact ih (hvisits.step (.handler hlooked)) (by simpa using hrethrown)
  | catchAll hmem _ ih =>
      exact ih (hvisits.step (.handler ⟨hmem, .inl rfl⟩)) (by simp)
  | call _ ih => exact ih (hvisits.step .callee) (by simp)
  | construct _ ih => exact ih (hvisits.step .constructor) (by simp)
  | defaultInit _ ih => exact ih (hvisits.step .defaultInit) hcaught
  | child hchild _ ih => exact ih (hvisits.step (.child hchild)) hcaught

theorem Throws.gathers {levels : Nat} {place : Place T F} {x : Raised T}
    (h : Throws prog place x) :
    Gathers prog (levels + 1) place.callStack place.caught place.node x := by
  cases h with
  | throw => exact ⟨none, by simp, .throw⟩
  | rethrow hmem => exact ⟨some _, by simpa using hmem, .rethrow⟩
  | noBody fresh hbody => exact ⟨none, by simp, .noBody fresh hbody⟩
  | exception fresh hbody hspec =>
      exact ⟨none, by simp, .exception fresh hbody hspec⟩

def TryFree (prog : Program T R F) (func : F) : Prop :=
  ∀ {top levels callStack caught tryBlock handlers context},
    ¬Visits prog func top levels
      ⟨callStack, caught, .stmt (.tryStmt tryBlock handlers), context⟩

theorem Visits.finds (hfree : TryFree prog func) {top levels : Nat}
    {place : Place T F} {x : Raised T}
    (h : Visits prog func top levels place)
    (hgathers : Gathers prog levels place.callStack place.caught place.node
      x) :
    Finds prog top ∅ none (.func func) x := by
  induction h with
  | start => exact gathers_empty.1 hgathers
  | @step _ place _ visited goes ih =>
      refine ih (goes.gathers (fun tryBlock handlers hnode => ?_) hgathers)
      obtain ⟨callStack, caught, node, context⟩ := place
      subst hnode
      exact hfree visited

/-- Without try statements the report says whether something that counts is
thrown within the levels. -/
theorem Analyzer.report_notThrowing_iff_of_tryFree
    (hfree : TryFree prog func) (level : Int) (ignoredExceptions : List String)
    (ignoreBadAlloc : Bool) :
    (report prog level ignoredExceptions ignoreBadAlloc func).behaviour =
        .notThrowing ↔
      ¬∃ levels place x, Visits prog func level.toNat (levels + 1) place ∧
        Throws prog place x ∧
        Counts prog.types ignoredExceptions ignoreBadAlloc x := by
  rw [report_notThrowing_iff, not_iff_not]
  constructor
  · rintro ⟨x, hfinds, hcounts⟩
    obtain ⟨levels, place, hvisits, hthrows⟩ :=
      hfinds.exists_throws .start (by simp)
    exact ⟨levels, place, x, hvisits, hthrows, hcounts⟩
  · rintro ⟨levels, place, x, hvisits, hthrows, hcounts⟩
    exact ⟨x, hvisits.finds hfree hthrows.gathers, hcounts⟩

end TryFree

end Pview.Exceptions
