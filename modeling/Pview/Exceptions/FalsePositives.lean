import Pview.Exceptions.Places
import Pview.Exceptions.Reports

/-!
# False positives

The analyzer looks into every `catch (...)`, also into one that nothing can
reach, and takes what is thrown again in a typed handler to be of the type of
the handler.  Where neither makes a difference, what it finds may be raised.
-/

namespace Pview.Exceptions

variable {T R F : Type} [DecidableEq T] [DecidableEq R] [DecidableEq F]

/-- The analyzer is right wherever it adds to its result: something may reach a
`catch (...)` in which it finds an exception, and what it takes a `throw;` to
throw may be the exception being handled. -/
structure AllEnterable (prog : Program T R F) (func : F) (top : Nat) :
    Prop where
  catchAll : ∀ {levels callStack caught tryBlock handlers context block t},
    Visits prog func top (levels + 1)
      ⟨callStack, caught, .stmt (.tryStmt tryBlock handlers), context⟩ →
    (none, block) ∈ handlers →
    Finds prog levels callStack none (.stmt block) (.type t) →
    (Handled prog context tryBlock handlers (none, block)).Nonempty
  rethrown : ∀ {levels callStack caught context t},
    Visits prog func top (levels + 1)
      ⟨callStack, caught, .stmt .rethrowExpr, context⟩ →
    t ∈ caught → .type t ∈ context

variable {prog : Program T R F}

/-- Where a `throw;` is taken to throw only what may be handled, a finding of
the analysis may be raised. -/
theorem Finds.mayRaise {func : F} {top : Nat}
    (henterable : AllEnterable prog func top) {levels : Nat}
    {callStack : Finset F} {t? : Option T} {node : Node T F} {x : Raised T}
    (h : Finds prog levels callStack t? node x) {t : T} (htype : x = .type t)
    {caught : Set T} {context : Set (Raised T)}
    (hvisits : Visits prog func top levels ⟨callStack, caught, node, context⟩)
    (hcaught : ∀ t ∈ t?, t ∈ caught) : MayRaise prog context node x := by
  induction h generalizing t caught context with
  | body fresh hbody _ ih =>
      obtain ⟨depth, handled, hhandled, hraised⟩ := ih htype
        (hvisits.step (.body fresh hbody)) (by simp)
      exact ⟨depth + 1, handled, hhandled, .body hbody hraised⟩
  | init fresh hbody hinit _ ih =>
      obtain ⟨depth, handled, hhandled, hraised⟩ := ih htype
        (hvisits.step (.init fresh hbody hinit)) (by simp)
      exact ⟨depth + 1, handled, hhandled, .init hbody hinit hraised⟩
  | noBody _ _ => cases htype
  | exception _ hbody hspec => exact ⟨1, none, by simp, .exception hbody hspec⟩
  | throw => exact ⟨1, none, by simp, .throw⟩
  | @rethrow _ _ caughtType =>
      refine ⟨1, some (.type caughtType), ?_, .rethrow⟩
      simpa using henterable.rethrown hvisits (hcaught caughtType rfl)
  | uncaught _ passed ih =>
      obtain ⟨depth, handled, hhandled, hraised⟩ := ih htype
        (hvisits.step .tryBlock) hcaught
      exact ⟨depth + 1, handled, hhandled, .uncaught hraised passed⟩
  | @caught _ _ t? tryBlock handlers handler thrown _ hthrown reached entered _
      ihThrown ihFound =>
      have hhandled : .type thrown ∈
          Handled prog context tryBlock handlers handler :=
        ⟨ihThrown rfl (hvisits.step .tryBlock) hcaught, reached,
          mayCatch_type.2 entered⟩
      obtain ⟨hlooked, hrethrown⟩ := looksInto_of_enters
        (fun t => Gathers prog _ _ caught (.stmt tryBlock) (.type t))
        ⟨t?, hcaught, hthrown⟩ reached entered
      refine MayRaise.of_handler ⟨_, hhandled⟩ ?_
      exact ihFound htype (hvisits.step (.handler hlooked))
        (by simpa using hrethrown)
  | catchAll hmem found ih =>
      subst htype
      refine MayRaise.of_handler (henterable.catchAll hvisits hmem found) ?_
      exact ih rfl (hvisits.step (.handler ⟨hmem, .inl rfl⟩)) (by simp)
  | call _ ih =>
      obtain ⟨depth, handled, hhandled, hraised⟩ := ih htype
        (hvisits.step .callee) (by simp)
      exact ⟨depth + 1, handled, hhandled, .callee hraised⟩
  | construct _ ih =>
      obtain ⟨depth, handled, hhandled, hraised⟩ := ih htype
        (hvisits.step .constructor) (by simp)
      exact ⟨depth + 1, handled, hhandled, .constructor hraised⟩
  | defaultInit _ ih =>
      obtain ⟨depth, handled, hhandled, hraised⟩ := ih htype
        (hvisits.step .defaultInit) hcaught
      exact ⟨depth + 1, handled, hhandled, .defaultInit hraised⟩
  | child hchild _ ih =>
      obtain ⟨depth, handled, hhandled, hraised⟩ := ih htype
        (hvisits.step (.child hchild)) hcaught
      exact ⟨depth + 1, handled, hhandled, .child hchild hraised⟩

/-- `try { throw 0; } catch (...) { throw; }` -/
def passesOn : Program Unit Unit Unit where
  types := ⟨fun _ => none, fun _ _ => true, fun _ => none⟩
  decl := fun _ =>
    ⟨some (.tryStmt (.throwExpr () (.other [])) [(none, .rethrowExpr)]), [], []⟩

namespace passesOn

theorem place_cases {top levels : Nat} {place : Place Unit Unit}
    (h : Visits passesOn () top levels place) :
    place.node = .func () ∧ place.context = ∅ ∨
    place.node = .stmt (.tryStmt (.throwExpr () (.other []))
      [(none, .rethrowExpr)]) ∧ place.context = ∅ ∨
    place.node = .stmt (.throwExpr () (.other [])) ∨
    place.node = .stmt .rethrowExpr ∧ .type () ∈ place.context := by
  induction h with
  | start => exact .inl ⟨rfl, rfl⟩
  | step _ goes ih =>
      cases goes with
      | body _ hbody =>
          cases hbody
          exact .inr (.inl ⟨rfl, by simpa using ih⟩)
      | init _ _ hinit => cases hinit
      | handler looked =>
          have hraised : ∀ context, MayRaise passesOn context
              (.stmt (.throwExpr () (.other []))) (.type ()) :=
            fun _ => ⟨1, none, by simp, .throw⟩
          obtain ⟨⟨rfl, rfl⟩, rfl⟩ := by simpa using ih
          obtain rfl := List.mem_singleton.1 looked.1
          exact .inr (.inr (.inr ⟨rfl, hraised ∅, .head, trivial⟩))
      | _ => simp_all

theorem allEnterable (top : Nat) : AllEnterable passesOn () top where
  catchAll h hmem hfinds := by
    obtain ⟨⟨rfl, rfl⟩, rfl⟩ := by simpa using place_cases h
    cases List.mem_singleton.1 hmem
    cases hfinds
  rethrown h _ := by simpa using place_cases h

end passesOn

section Kinds

variable {func : F} {tryBlock subExpr : Stmt T F} {t caughtType : T}

/-- A function that throws only in a `catch (...)` that nothing reaches. -/
theorem funcMightThrow_neverEntered
    (hbody : (prog.decl func).body =
      some (.tryStmt tryBlock [(none, .throwExpr t subExpr)]))
    (hinits : (prog.decl func).inits = [])
    (hcounts : isIgnored prog.types ["AssertionError"] true t = false)
    (hquiet : ∀ depth x, ¬Raises prog depth none (.stmt tryBlock) x) :
    funcMightThrow prog func = true ∧ ∀ x, ¬MayEscape prog func x := by
  constructor
  · refine (funcMightThrow_iff prog func).2 ⟨t, ?_, hcounts⟩
    have hfound : Finds prog 3 ∅ none (.func func) (.type t) :=
      .body (by simp) hbody (.catchAll List.mem_cons_self .throw)
    exact hfound.mono (by omega)
  · intro x
    rw [mayEscape_of_body hbody hinits]
    rintro ⟨depth, h⟩
    cases h with
    | uncaught raised _ => exact hquiet _ _ raised
    | caught raised _ _ _ => exact hquiet _ _ raised

/-- A function that throws what a handler for a base class throws again: the
base class is reported and the class thrown escapes. -/
theorem funcMightThrow_baseRethrow
    (hbody : (prog.decl func).body = some (.tryStmt (.throwExpr t subExpr)
      [(some caughtType, .rethrowExpr)]))
    (hinits : (prog.decl func).inits = [])
    (hquiet : ∀ depth x, ¬Raises prog depth none (.stmt subExpr) x)
    (hcatches : catches prog.types caughtType t = true) :
    (funcMightThrow prog func = true ↔
      isIgnored prog.types ["AssertionError"] true caughtType = false) ∧
    ∀ x, MayEscape prog func x ↔ x = .type t := by
  constructor
  · rw [funcMightThrow_iff]
    constructor
    · rintro ⟨found, h, hcounts⟩
      obtain ⟨levels, h⟩ := h.of_func hbody hinits
      cases h with
      | uncaught thrown passed =>
          have hpassed := passed _ List.mem_cons_self
          cases thrown
          simp [Passes, hcatches] at hpassed
      | caught _ reached _ h =>
          cases reaches_singleton.1 reached
          cases h
          exact hcounts
      | catchAll hmem _ => simp at hmem
    · intro hcounts
      refine ⟨caughtType, ?_, hcounts⟩
      have hfound : Finds prog 3 ∅ none (.func func) (.type caughtType) :=
        .body (by simp) hbody (.caught .throw .head hcatches .rethrow)
      exact hfound.mono (by omega)
  · intro x
    have hthrown : ∀ depth x, Raises prog depth none
        (.stmt (.throwExpr t subExpr)) x → x = .type t := by
      intro depth x h
      cases h with
      | throw => rfl
      | operand raised => exact absurd raised (hquiet _ _)
    rw [mayEscape_of_body hbody hinits]
    constructor
    · rintro ⟨depth, h⟩
      cases h with
      | uncaught raised passed => exact hthrown _ _ raised
      | caught raised reached caught h =>
          cases reaches_singleton.1 reached
          cases h
          exact hthrown _ _ raised
    · rintro rfl
      exact ⟨2, .caught .throw .head hcatches .rethrow⟩

end Kinds

/-- `try {} catch (...) { throw 0; }` -/
def neverEntered : Program Unit Unit Unit where
  types := ⟨fun _ => none, fun _ _ => true, fun _ => none⟩
  decl := fun _ =>
    ⟨some (.tryStmt (.other []) [(none, .throwExpr () (.other []))]), [], []⟩

end Pview.Exceptions
