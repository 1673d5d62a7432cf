import Mathlib.Data.Nat.Find
import Pview.Exceptions.Places
import Pview.Exceptions.Reports

/-!
# Missed throws

The analyzer does not look into the arguments of calls and constructions and
into the operands of throws, stops at a function it has entered, takes what is
thrown again in a typed handler to be of the type of the handler, and finds
nothing at a `throw;` outside of handlers.  Where none of this makes a
difference, every exception that may escape is found with enough levels.
-/

namespace Pview.Exceptions

variable {T R F : Type} [DecidableEq T] [DecidableEq R] [DecidableEq F]

/-- Every function has a visible body, and the analysis of this one meets no
indirect call. -/
structure Closed (prog : Program T R F) (func : F) : Prop where
  body : ∀ callee, ∃ st, (prog.decl callee).body = some st
  direct : ∀ callStack caught children context,
    ¬Reached prog func
      ⟨callStack, caught, .stmt (.callExpr none children), context⟩

/-- A part of the statement that is evaluated and not looked into. -/
inductive Unseen : Stmt T F → Stmt T F → Prop
  | operand {thrownType subExpr} :
      Unseen (.throwExpr thrownType subExpr) subExpr
  | callArgument {directCallee children child} (hchild : child ∈ children) :
      Unseen (.callExpr directCallee children) child
  | constructorArgument {constructor args arg} (harg : arg ∈ args) :
      Unseen (.constructExpr constructor args) arg

/-- Nothing the analyzer passes over or mistakes matters to the function. -/
structure Traceable (prog : Program T R F) (func : F) : Prop where
  /-- What the analyzer does not look into raises nothing. -/
  unseen : ∀ {callStack caught st context part},
    Reached prog func ⟨callStack, caught, .stmt st, context⟩ →
    Unseen st part → ∀ x, ¬MayRaise prog context (.stmt part) x
  /-- A `throw;` is taken to throw whatever may be handled. -/
  rethrown : ∀ {callStack caught context},
    Reached prog func ⟨callStack, caught, .stmt .rethrowExpr, context⟩ →
    ∀ y ∈ context, ∃ t ∈ caught, y = .type t
  /-- A function called again by itself does not throw again what its caller
  handles. -/
  reentered : ∀ {callStack caught callee context},
    Reached prog func ⟨callStack, caught, .func callee, context⟩ →
    callee ∈ callStack → ∀ y ∈ context, ∀ depth x,
    Raises prog depth (some y) (.func callee) x →
    Raises prog depth none (.func callee) x
  /-- A function called again in a try block of its own raises nothing. -/
  recursive : ∀ {callStack caught tryBlock handlers context callee next},
    Reached prog func
      ⟨callStack, caught, .stmt (.tryStmt tryBlock handlers), context⟩ →
    callee ∈ callStack →
    Leads prog ⟨callStack, caught, .stmt tryBlock, context⟩ next →
    next.node = .func callee →
    ∀ depth x, ¬Raises prog depth none (.func callee) x

def Found (prog : Program T R F) (place : Place T F) (x : Raised T) : Prop :=
  (∃ t, x = .type t) ∧
    GathersAtAll prog place.callStack place.caught place.node x

section Found

variable {prog : Program T R F} {place next : Place T F} {x : Raised T}

theorem Found.of_goes (h : Found prog next x)
    (goes : Goes prog (GathersAtAll prog) place next)
    (hnode : ∀ tryBlock handlers,
      place.node ≠ .stmt (.tryStmt tryBlock handlers)) :
    Found prog place x := by
  obtain ⟨htype, levels, hgathers⟩ := h
  exact ⟨htype, levels + 1, goes.gathers hnode hgathers⟩

theorem Found.uncaught {callStack : Finset F} {caught : Set T}
    {context : Set (Raised T)} {tryBlock : Stmt T F}
    {handlers : List (Option T × Stmt T F)}
    (h : Found prog ⟨callStack, caught, .stmt tryBlock, context⟩ x)
    (passed : ∀ handler ∈ handlers, Passes prog.types handler.1 x) :
    Found prog
      ⟨callStack, caught, .stmt (.tryStmt tryBlock handlers), context⟩ x := by
  obtain ⟨htype, levels, t?, hcaught, hfinds⟩ := h
  exact ⟨htype, levels + 1, t?, hcaught, .uncaught hfinds passed⟩

theorem gathersAtAll_of_handler {callStack : Finset F} {caught : Set T}
    {tryBlock : Stmt T F} {handlers : List (Option T × Stmt T F)}
    {handler : Option T × Stmt T F} {t : T}
    (hthrown : GathersAtAll prog callStack caught (.stmt tryBlock) (.type t))
    (hreached : Reaches prog.types handlers handler (.type t))
    (hentered : Enters prog.types handler.1 t)
    (h : GathersAtAll prog callStack (Rethrown prog.types handlers
      (fun t => GathersAtAll prog callStack caught (.stmt tryBlock) (.type t))
      handler) (.stmt handler.2) x) :
    GathersAtAll prog callStack caught (.stmt (.tryStmt tryBlock handlers))
      x := by
  obtain ⟨levels, t?, hrethrown, hfinds⟩ := h
  -- the exception thrown again is one that enters the handler as well
  obtain ⟨s, hs, hreached, hentered, hfinds⟩ : ∃ s,
      GathersAtAll prog callStack caught (.stmt tryBlock) (.type s) ∧
      Reaches prog.types handlers handler (.type s) ∧
      Enters prog.types handler.1 s ∧
      Finds prog levels callStack (some (handler.1.getD s)) (.stmt handler.2)
        x := by
    cases t? with
    | none => exact ⟨t, hthrown, hreached, hentered, hfinds.weaken _⟩
    | some s =>
        have hs := hrethrown s rfl
        unfold Rethrown at hs
        cases hhandler : handler.1 with
        | none =>
            rw [hhandler] at hs
            exact ⟨s, hs.1, hs.2, trivial, hfinds⟩
        | some caughtType =>
            rw [hhandler] at hs hentered
            obtain rfl : s = caughtType := hs
            exact ⟨t, hthrown, hreached, hentered, hfinds⟩
  obtain ⟨blockLevels, s?, hcaught, hblock⟩ := hs
  exact ⟨max blockLevels levels + 1, s?, hcaught,
    .caught (hblock.mono (le_max_left _ _)) hreached hentered
      (hfinds.mono (le_max_right _ _))⟩

end Found

/-- No function entered on the way to the place to which the analysis leads
back raises the exception by an execution of this depth. -/
def Avoids (prog : Program T R F) (place : Place T F) (depth : Nat)
    (x : Raised T) : Prop :=
  ∀ callee ∈ place.callStack, ∀ next, Leads prog place next →
    next.node = .func callee → ¬Raises prog depth none (.func callee) x

theorem Avoids.goes {prog : Program T R F} {place next : Place T F}
    {depth : Nat} {x : Raised T} (h : Avoids prog place (depth + 1) x)
    (goes : Goes prog (GathersAtAll prog) place next)
    (hstack : next.callStack = place.callStack) :
    Avoids prog next depth x := by
  intro callee hmem last hleads hnode hraises
  exact h callee (hstack ▸ hmem) last (.head goes hleads) hnode hraises.succ

/-- Whatever is raised at this depth, where the analysis gets to, is found. -/
def Traced (prog : Program T R F) (func : F) (depth : Nat) : Prop :=
  ∀ {place handled x}, Reached prog func place →
    (∀ y ∈ handled, y ∈ place.context) → Avoids prog place depth x →
    Raises prog depth handled place.node x → Found prog place x

theorem Traced.goes {prog : Program T R F} {func : F} {depth : Nat}
    {place next : Place T F} {handled : Option (Raised T)} {x : Raised T}
    (ih : Traced prog func depth)
    (goes : Goes prog (GathersAtAll prog) place next)
    (hstack : next.callStack = place.callStack)
    (hnode : ∀ tryBlock handlers,
      place.node ≠ .stmt (.tryStmt tryBlock handlers))
    (hreached : Reached prog func place)
    (hhandled : ∀ y ∈ handled, y ∈ next.context)
    (havoids : Avoids prog place (depth + 1) x)
    (raised : Raises prog depth handled next.node x) : Found prog place x :=
  (ih (hreached.tail goes) hhandled (havoids.goes goes hstack)
    raised).of_goes goes hnode

section Traceable

variable {prog : Program T R F} {func : F} (htraceable : Traceable prog func)

include htraceable

theorem Raises.unhandled {depth : Nat} {y : Raised T} {node : Node T F}
    {x : Raised T} (h : Raises prog depth (some y) node x)
    {callStack : Finset F} {context : Set (Raised T)}
    (hreached : Reached prog func ⟨callStack, ∅, node, context⟩)
    (hy : y ∈ context) : Raises prog depth none node x := by
  have hunseen : ∀ {callStack st part depth x},
      Reached prog func ⟨callStack, ∅, .stmt st, context⟩ → Unseen st part →
      ¬Raises prog depth (some y) (.stmt part) x :=
    fun hreached hpart hraised =>
      htraceable.unseen hreached hpart _ ⟨_, some y, by simpa, hraised⟩
  generalize hhandled : some y = handled at h
  induction h generalizing callStack with
  | @body depth _ callee st x hbody raised ih =>
      subst hhandled
      by_cases hmem : callee ∈ callStack
      · exact htraceable.reentered hreached hmem y hy _ _ (.body hbody raised)
      · exact .body hbody (ih (hreached.tail (.body hmem hbody)) rfl)
  | @init depth _ callee st init x hbody hinit raised ih =>
      subst hhandled
      by_cases hmem : callee ∈ callStack
      · exact htraceable.reentered hreached hmem y hy _ _
          (.init hbody hinit raised)
      · exact .init hbody hinit
          (ih (hreached.tail (.init hmem hbody hinit)) rfl)
  | noBody hbody => exact .noBody hbody
  | exception hbody hspec => exact .exception hbody hspec
  | throw => exact .throw
  | operand raised =>
      exact absurd (hhandled ▸ raised) (hunseen hreached .operand)
  | rethrow =>
      obtain ⟨t, hmem, -⟩ := htraceable.rethrown hreached y hy
      cases hmem
  | uncaught _ passed ih =>
      exact .uncaught (ih (hreached.tail .tryBlock) hhandled) passed
  | caught _ reached caught handling ih =>
      exact .caught (ih (hreached.tail .tryBlock) hhandled) reached caught
        handling
  | callee _ ih => exact .callee (ih (hreached.tail .callee) hhandled)
  | indirectCallee => exact .indirectCallee
  | callArgument hchild raised =>
      exact absurd (hhandled ▸ raised) (hunseen hreached (.callArgument hchild))
  | constructor _ ih =>
      exact .constructor (ih (hreached.tail .constructor) hhandled)
  | constructorArgument harg raised =>
      exact absurd (hhandled ▸ raised)
        (hunseen hreached (.constructorArgument harg))
  | defaultInit _ ih =>
      exact .defaultInit (ih (hreached.tail .defaultInit) hhandled)
  | child hchild _ ih =>
      exact .child hchild (ih (hreached.tail (.child hchild)) hhandled)

theorem Raises.called {depth : Nat} {handled : Option (Raised T)} {callee : F}
    {x : Raised T} (h : Raises prog depth handled (.func callee) x)
    {callStack : Finset F} {caught : Set T} {context : Set (Raised T)}
    (hreached : Reached prog func ⟨callStack, caught, .func callee, context⟩)
    (hhandled : ∀ y ∈ handled, y ∈ context) :
    Raises prog depth none (.func callee) x := by
  cases handled with
  | none => exact h
  | some y =>
      have hy : y ∈ context := hhandled y rfl
      by_cases hmem : callee ∈ callStack
      · exact htraceable.reentered hreached hmem y hy _ _ h
      · cases h with
        | body hbody raised =>
            exact .body hbody (raised.unhandled htraceable
              (hreached.tail (.body hmem hbody)) hy)
        | init hbody hinit raised =>
            exact .init hbody hinit (raised.unhandled htraceable
              (hreached.tail (.init hmem hbody hinit)) hy)
        | noBody hbody => exact .noBody hbody
        | exception hbody hspec => exact .exception hbody hspec

/-- A function that raises the exception at all raises it by an execution in
which it is not called again for that: one of least depth. -/
theorem Avoids.enter {callStack : Finset F} {caught : Set T} {callee : F}
    {context : Set (Raised T)} {depth : Nat} {handled : Option (Raised T)}
    {x : Raised T}
    (havoids : Avoids prog ⟨callStack, caught, .func callee, context⟩ depth x)
    (hreached : Reached prog func ⟨callStack, caught, .func callee, context⟩)
    (hhandled : ∀ y ∈ handled, y ∈ context)
    (h : Raises prog depth handled (.func callee) x) :
    callee ∉ callStack ∧ ∃ less < depth,
      Raises prog (less + 1) none (.func callee) x ∧
      ∀ next, Goes prog (GathersAtAll prog)
          ⟨callStack, caught, .func callee, context⟩ next →
        next.callStack = insert callee callStack → Avoids prog next less x := by
  have hraises : Raises prog depth none (.func callee) x :=
    h.called htraceable hreached hhandled
  obtain ⟨least, hleast, hmin⟩ : ∃ least,
      Raises prog least none (.func callee) x ∧
      ∀ less < least, ¬Raises prog less none (.func callee) x := by
    classical
    have hsome : ∃ least, Raises prog least none (.func callee) x :=
      ⟨depth, hraises⟩
    exact ⟨Nat.find hsome, Nat.find_spec hsome, fun _ => Nat.find_min hsome⟩
  have hle : least ≤ depth := by
    by_contra hlt
    exact hmin depth (by omega) hraises
  refine ⟨fun hmem => havoids callee hmem _ .refl rfl hraises, ?_⟩
  cases least with
  | zero => cases hleast
  | succ less =>
      refine ⟨less, hle, hleast, fun next goes hstack => ?_⟩
      intro other hmem last hleads hnode hagain
      rw [hstack, Finset.mem_insert] at hmem
      rcases hmem with rfl | hmem
      · exact hmin less (Nat.lt_succ_self less) hagain
      · exact havoids other hmem last (.head goes hleads) hnode
          (hagain.mono (by omega))

theorem Traced.entered (hclosed : Closed prog func) {depth : Nat}
    (ih : ∀ less < depth, Traced prog func less) {callStack : Finset F}
    {caught : Set T} {callee : F} {context : Set (Raised T)}
    {handled : Option (Raised T)} {x : Raised T}
    (hreached : Reached prog func ⟨callStack, caught, .func callee, context⟩)
    (hhandled : ∀ y ∈ handled, y ∈ context)
    (havoids : Avoids prog ⟨callStack, caught, .func callee, context⟩ depth x)
    (h : Raises prog depth handled (.func callee) x) :
    Found prog ⟨callStack, caught, .func callee, context⟩ x := by
  obtain ⟨fresh, less, hless, hraises, hnext⟩ :=
    havoids.enter htraceable hreached hhandled h
  have hstep : ∀ {next}, Goes prog (GathersAtAll prog)
      ⟨callStack, caught, .func callee, context⟩ next →
      next.callStack = insert callee callStack →
      Raises prog less none next.node x →
      Found prog ⟨callStack, caught, .func callee, context⟩ x :=
    fun goes hstack raised => (ih less hless (hreached.tail goes) (by simp)
      (hnext _ goes hstack) raised).of_goes goes (by simp)
  obtain ⟨st, hst⟩ := hclosed.body callee
  cases hraises with
  | body hbody raised => exact hstep (.body fresh hbody) rfl raised
  | init hbody hinit raised =>
      exact hstep (.init fresh hbody hinit) rfl raised
  | noBody hbody => cases hst.symm.trans hbody
  | exception hbody _ => cases hst.symm.trans hbody

/-- What the try block raises is found, whatever the try statement has to
avoid, and so the analyzer looks into the handler that catches it. -/
theorem Traced.caught {depth : Nat} (ih : Traced prog func depth)
    {callStack : Finset F} {caught : Set T} {context : Set (Raised T)}
    {tryBlock : Stmt T F} {handlers : List (Option T × Stmt T F)}
    {handler : Option T × Stmt T F} {handled : Option (Raised T)}
    {thrown x : Raised T}
    (hreached : Reached prog func
      ⟨callStack, caught, .stmt (.tryStmt tryBlock handlers), context⟩)
    (hhandled : ∀ y ∈ handled, y ∈ context)
    (havoids : Avoids prog
      ⟨callStack, caught, .stmt (.tryStmt tryBlock handlers), context⟩
      (depth + 1) x)
    (raised : Raises prog depth handled (.stmt tryBlock) thrown)
    (reached : Reaches prog.types handlers handler thrown)
    (mayCatch : MayCatch prog.types handler.1 thrown)
    (handling : Raises prog depth (some thrown) (.stmt handler.2) x) :
    Found prog
      ⟨callStack, caught, .stmt (.tryStmt tryBlock handlers), context⟩ x := by
  have hblock : Found prog ⟨callStack, caught, .stmt tryBlock, context⟩
      thrown := by
    refine ih (hreached.tail .tryBlock) hhandled ?_ raised
    intro callee hmem next hleads hnode
    exact htraceable.recursive hreached hmem hleads hnode _ _
  obtain ⟨⟨t, rfl⟩, hthrown⟩ := hblock
  have hentered : Enters prog.types handler.1 t := mayCatch_type.1 mayCatch
  have hlooked : LooksInto prog.types handlers
      (fun t => GathersAtAll prog callStack caught (.stmt tryBlock) (.type t))
      handler := (looksInto_of_enters (fun t => GathersAtAll prog callStack
        caught (.stmt tryBlock) (.type t)) hthrown reached hentered).1
  have hmem : .type t ∈ Handled prog context tryBlock handlers handler :=
    ⟨⟨depth, handled, hhandled, raised⟩, reached, mayCatch⟩
  obtain ⟨htype, hgathers⟩ := ih (hreached.tail (.handler hlooked))
    (by simpa using hmem) (havoids.goes (.handler hlooked) rfl) handling
  exact ⟨htype, gathersAtAll_of_handler hthrown reached hentered hgathers⟩

/-- What is raised is found.  An execution that enters a function is exchanged
for one of least depth, so that the function is not entered again on the way to
the exception. -/
theorem traced (hclosed : Closed prog func) (depth : Nat) :
    Traced prog func depth := by
  induction depth using Nat.strong_induction_on with
  | _ depth ih =>
      rintro ⟨callStack, caught, node, context⟩ handled x hreached hhandled
        havoids h
      have hunseen : ∀ {st part less}, node = .stmt st → Unseen st part →
          ¬Raises prog less handled (.stmt part) x := by
        rintro st part less rfl hpart hraised
        exact htraceable.unseen hreached hpart x ⟨_, _, hhandled, hraised⟩
      cases node with
      | func callee =>
          exact Traced.entered htraceable hclosed ih hreached hhandled havoids h
      | stmt st =>
          cases depth with
          | zero => cases h
          | succ depth =>
              have hdepth : Traced prog func depth := ih depth (by omega)
              cases h with
              | throw => exact ⟨⟨_, rfl⟩, 1, none, by simp, .throw⟩
              | operand raised => exact absurd raised (hunseen rfl .operand)
              | rethrow =>
                  obtain ⟨t, hmem, rfl⟩ :=
                    htraceable.rethrown hreached x (hhandled x rfl)
                  exact ⟨⟨t, rfl⟩, 1, some t, by simpa using hmem, .rethrow⟩
              | uncaught raised passed =>
                  exact (hdepth (hreached.tail .tryBlock) hhandled
                    (havoids.goes .tryBlock rfl) raised).uncaught passed
              | caught raised reached mayCatch handling =>
                  exact hdepth.caught htraceable hreached hhandled havoids
                    raised reached mayCatch handling
              | callee raised =>
                  exact hdepth.goes .callee rfl (by simp) hreached
                    hhandled havoids raised
              | indirectCallee =>
                  exact absurd hreached (hclosed.direct _ _ _ _)
              | callArgument hchild raised =>
                  exact absurd raised (hunseen rfl (.callArgument hchild))
              | constructor raised =>
                  exact hdepth.goes .constructor rfl (by simp) hreached
                    hhandled havoids raised
              | constructorArgument harg raised =>
                  exact absurd raised (hunseen rfl (.constructorArgument harg))
              | defaultInit raised =>
                  exact hdepth.goes .defaultInit rfl (by simp) hreached
                    hhandled havoids raised
              | child hchild raised =>
                  exact hdepth.goes (.child hchild) rfl (by simp) hreached
                    hhandled havoids raised

end Traceable

/-- `g() { throw 0; }` and `f() { try { g(); } catch (...) { throw; } }` -/
def throughCatchAll : Program Unit Unit Bool where
  types := ⟨fun _ => none, fun _ _ => true, fun _ => none⟩
  decl
    | true => ⟨some (.tryStmt (.callExpr (some false) [])
        [(none, .rethrowExpr)]), [], []⟩
    | false => ⟨some (.throwExpr () (.other [])), [], []⟩

namespace throughCatchAll

def block : Stmt Unit Bool := .callExpr (some false) []

theorem mayRaise_block {context : Set (Raised Unit)} {x : Raised Unit}
    (h : MayRaise throughCatchAll context (.stmt block) x) : x = .type () := by
  obtain ⟨depth, handled, -, h⟩ := h
  cases h with
  | callee raised =>
      cases raised with
      | body hbody raised =>
          cases hbody
          cases raised with
          | throw => rfl
          | operand raised =>
              cases raised with
              | child hchild _ => cases hchild
      | init _ hinit _ => cases hinit
      | noBody hbody => cases hbody
      | exception hbody _ => cases hbody
  | callArgument hchild _ => cases hchild

theorem gathers_block {caught : Set Unit} :
    GathersAtAll throughCatchAll {true} caught (.stmt block) (.type ()) :=
  ⟨3, none, by simp, .call (.body (by simp) rfl .throw)⟩

theorem place_cases {place : Place Unit Bool}
    (h : Reached throughCatchAll true place) :
    place = .start true ∨
    place = ⟨{true}, ∅, .stmt (.tryStmt block [(none, .rethrowExpr)]), ∅⟩ ∨
    place = ⟨{true}, ∅, .stmt block, ∅⟩ ∨
    place = ⟨{true}, ∅, .func false, ∅⟩ ∨
    place.node = .stmt (.throwExpr () (.other [])) ∨
    place.node = .stmt .rethrowExpr ∧
      ∀ y ∈ place.context, ∃ t ∈ place.caught, y = .type t := by
  induction h with
  | refl => exact .inl rfl
  | tail _ goes ih =>
      cases goes with
      | @body _ _ callee _ _ _ hbody =>
          cases callee <;> cases hbody <;> simp_all [Place.start, block]
      | @init _ _ callee _ _ _ _ _ hinit => cases callee <;> cases hinit
      | handler looked =>
          obtain ⟨rfl, rfl, ⟨rfl, rfl⟩, rfl⟩ := by
            simpa [Place.start, block] using ih
          obtain rfl := List.mem_singleton.1 looked.1
          refine .inr (.inr (.inr (.inr (.inr ⟨rfl, ?_⟩))))
          intro y hy
          exact ⟨(), ⟨gathers_block, .head⟩, mayRaise_block hy.1⟩
      | _ => simp_all [Place.start, block]

theorem closed : Closed throughCatchAll true where
  body callee := by cases callee <;> exact ⟨_, rfl⟩
  direct callStack caught children context h := by
    simpa [Place.start, block] using place_cases h

theorem leads_cases {place next : Place Unit Bool}
    (h : Leads throughCatchAll place next) (hplace : place.node = .stmt block) :
    next.node = .stmt block ∨ next.node = .func false ∨
      next.node = .stmt (.throwExpr () (.other [])) := by
  induction h with
  | refl => exact .inl hplace
  | tail _ goes ih =>
      cases goes with
      | @body _ _ callee _ _ _ hbody =>
          cases callee <;> cases hbody <;> simp_all [block]
      | @init _ _ callee _ _ _ _ _ hinit => cases callee <;> cases hinit
      | _ => simp_all [block]

theorem traceable : Traceable throughCatchAll true where
  unseen := by
    rintro callStack caught st context part h hunseen x
      ⟨depth, handled, -, hraises⟩
    have hplace := place_cases h
    cases hunseen with
    | operand =>
        obtain rfl : part = .other [] := by
          simpa [Place.start, block] using hplace
        cases hraises with
        | child hchild _ => cases hchild
    | callArgument hchild => simp_all [Place.start, block]
    | constructorArgument harg => simp [Place.start, block] at hplace
  rethrown h := by simpa [Place.start, block] using place_cases h
  reentered := by
    intro callStack caught callee context h hmem
    have hplace := place_cases h
    have hfresh : callee ∉ callStack := by
      rcases hplace with hplace | hplace | hplace | hplace | hplace | hplace <;>
        simp_all [Place.start, block]
    exact absurd hmem hfresh
  recursive := by
    intro callStack caught tryBlock handlers context callee next h hmem hleads
      hnode
    obtain ⟨rfl, rfl, ⟨rfl, rfl⟩, rfl⟩ := by
      simpa [Place.start, block] using place_cases h
    have hnext := leads_cases hleads rfl
    simp_all [block]

end throughCatchAll

/-- A function that does nothing but call an empty function is not reported,
and lets escape what the arguments raise. -/
theorem report_callExpr {prog : Program T R F} {func callee : F}
    {children : List (Stmt T F)}
    (hbody : (prog.decl func).body = some (.callExpr (some callee) children))
    (hinits : (prog.decl func).inits = [])
    (hcallee : prog.decl callee = ⟨some (.other []), [], []⟩) :
    (∀ level ignoredExceptions ignoreBadAlloc,
      (Analyzer.report prog level ignoredExceptions ignoreBadAlloc
        func).behaviour ≠ .throwing) ∧
    ∀ x, MayEscape prog func x ↔
      ∃ child ∈ children, ∃ depth, Raises prog depth none (.stmt child) x := by
  have hcalleeBody : (prog.decl callee).body = some (.other []) := by
    rw [hcallee]
  have hcalleeInits : (prog.decl callee).inits = [] := by rw [hcallee]
  constructor
  · intro level ignoredExceptions ignoreBadAlloc
    rw [Ne, Analyzer.report_throwing_iff]
    rintro ⟨t, h, -⟩
    obtain ⟨levels, h⟩ := h.of_func hbody hinits
    cases h with
    | call h =>
        obtain ⟨levels, h⟩ := h.of_func hcalleeBody hcalleeInits
        cases h with
        | child hchild _ => cases hchild
  · intro x
    have hquiet : ¬MayEscape prog callee x := by
      rw [mayEscape_of_body hcalleeBody hcalleeInits]
      rintro ⟨depth, h⟩
      cases h with
      | child hchild _ => cases hchild
    rw [mayEscape_of_body hbody hinits]
    constructor
    · rintro ⟨depth, h⟩
      cases h with
      | callee raised => exact absurd ⟨_, raised⟩ hquiet
      | callArgument hchild raised => exact ⟨_, hchild, _, raised⟩
    · rintro ⟨child, hchild, depth, raised⟩
      exact ⟨depth + 1, .callArgument hchild raised⟩

/-- `g(int) {}` and `f() { g(b ? 1 : throw 0); }` -/
def passedOver : Program Unit Unit Bool where
  types := ⟨fun _ => none, fun _ _ => true, fun _ => none⟩
  decl
    | true => ⟨some (.callExpr (some false)
        [.other [.other [], .other [], .throwExpr () (.other [])]]), [], []⟩
    | false => ⟨some (.other []), [], []⟩

theorem closed_passedOver : Closed passedOver true where
  body callee := by cases callee <;> exact ⟨_, rfl⟩
  direct := by
    have hnode : ∀ {place}, Reached passedOver true place →
        (∃ callee, place.node = .func callee) ∨ place.node = .stmt (.other []) ∨
          ∃ children, place.node = .stmt (.callExpr (some false) children) := by
      intro place h
      induction h with
      | refl => exact .inl ⟨_, rfl⟩
      | tail _ goes ih =>
          cases goes with
          | @body _ _ callee _ _ _ hbody =>
              cases callee <;> cases hbody <;> simp
          | @init _ _ callee _ _ _ _ _ hinit => cases callee <;> cases hinit
          | _ => simp_all
    exact fun _ _ _ _ h => by simpa using hnode h

end Pview.Exceptions
