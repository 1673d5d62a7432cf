import Mathlib.Data.List.Basic

/-!
# Programs that make calls

A program is a tree: it returns a value, or makes a call and goes on with the
answer.  A call may also never be answered, and a program may stop without a
value; neither is followed any further.

A monitor watches the calls with their answers and tells in each of its states
which calls it allows, and whether the program may stop.  `Safe` says that a
program keeps to this, whatever the answers are, and what it returns; it is the
weakest precondition, by recursion on the tree.
-/

namespace Pview.Foundation

universe u v w

inductive Program {Call : Type u} (Answer : Call → Type v) (α : Type w) :
    Type (max u v w)
  | ret (value : α)
  | call (c : Call) (next : Answer c → Program Answer α)
  /-- An uncaught exception, a failed assertion, or no fuel left. -/
  | halt

namespace Program

variable {Call : Type u} {Answer : Call → Type v} {α β : Type w}

protected def bind :
    Program Answer α → (α → Program Answer β) → Program Answer β
  | .ret value, f => f value
  | .call c next, f => .call c fun answer => (next answer).bind f
  | .halt, _ => .halt

instance : Monad (Program Answer) where
  pure := .ret
  bind := Program.bind

abbrev Event (Answer : Call → Type v) : Type (max u v) := Σ c, Answer c

inductive Reaches :
    Program Answer α → List (Event Answer) → Program Answer α → Prop
  | refl (p : Program Answer α) : Reaches p [] p
  | step (c : Call) (next : Answer c → Program Answer α) (answer : Answer c)
      {events : List (Event Answer)} {rest : Program Answer α}
      (h : Reaches (next answer) events rest) :
      Reaches (.call c next) (⟨c, answer⟩ :: events) rest

theorem Reaches.append_iff {p rest : Program Answer α}
    {before events : List (Event Answer)} :
    p.Reaches (before ++ events) rest ↔
      ∃ q, p.Reaches before q ∧ q.Reaches events rest := by
  induction before generalizing p with
  | nil =>
      refine ⟨fun h => ⟨p, .refl p, h⟩, ?_⟩
      rintro ⟨q, hq, h⟩
      cases hq
      exact h
  | cons event before ih =>
      constructor
      · intro h
        cases h with
        | step c next answer h =>
            obtain ⟨q, hq, hrest⟩ := ih.mp h
            exact ⟨q, .step c next answer hq, hrest⟩
      · rintro ⟨q, hq, hrest⟩
        cases hq with
        | step c next answer h =>
            exact .step c next answer (ih.mpr ⟨q, h, hrest⟩)

/-- The run in which the answer to a call depends on the call only, up to one
that is not answered. -/
def answered (reply : (c : Call) → Option (Answer c)) :
    Program Answer α → List (Event Answer) × Program Answer α
  | .ret value => ([], .ret value)
  | .halt => ([], .halt)
  | .call c next =>
      match reply c with
      | none => ([], .call c next)
      | some answer =>
          let (events, rest) := (next answer).answered reply
          (⟨c, answer⟩ :: events, rest)

theorem reaches_answered (reply : (c : Call) → Option (Answer c))
    (p : Program Answer α) :
    p.Reaches (p.answered reply).1 (p.answered reply).2 := by
  induction p with
  | ret value => exact .refl _
  | halt => exact .refl _
  | call c next ih =>
      rw [answered]
      cases reply c with
      | none => exact .refl _
      | some answer => exact .step c next answer (ih answer)

end Program

structure Monitor {Call : Type u} (Answer : Call → Type v) (σ : Type w) where
  Allows : σ → Call → Prop
  Halts : σ → Prop
  next : σ → (c : Call) → Answer c → σ

namespace Monitor

variable {Call : Type u} {Answer : Call → Type v} {σ : Type w}

def after (M : Monitor Answer σ) (s : σ) (events : List (Program.Event Answer)) :
    σ :=
  events.foldl (fun s event => M.next s event.1 event.2) s

theorem after_append_singleton (M : Monitor Answer σ) (s : σ)
    (events : List (Program.Event Answer)) (c : Call) (answer : Answer c) :
    M.after s (events ++ [⟨c, answer⟩]) =
      M.next (M.after s events) c answer := by
  rw [after, List.foldl_append]
  rfl

def Ignores (M : Monitor Answer σ) (s : σ) (c : Call) : Prop :=
  M.Allows s c ∧ ∀ answer, M.next s c answer = s

def history (allows : List (Program.Event Answer) → Call → Prop) :
    Monitor Answer (List (Program.Event Answer)) where
  Allows := allows
  Halts _ := True
  next events c answer := events ++ [⟨c, answer⟩]

theorem after_history {allows : List (Program.Event Answer) → Call → Prop}
    (before events : List (Program.Event Answer)) :
    (history allows).after before events = before ++ events := by
  induction events generalizing before with
  | nil => simp [after]
  | cons event events ih =>
      have hrest := ih (before ++ [event])
      rwa [List.append_assoc] at hrest

end Monitor

namespace Program

variable {Call : Type u} {Answer : Call → Type v} {α β σ : Type w}
  {M : Monitor Answer σ}

/-- From state `s` of the monitor on, the program does only what is allowed, and
what it returns meets `post`. -/
def Safe (M : Monitor Answer σ) (post : α → σ → Prop) :
    Program Answer α → σ → Prop
  | .ret value, s => post value s
  | .call c next, s =>
      M.Allows s c ∧ ∀ answer, (next answer).Safe M post (M.next s c answer)
  | .halt, s => M.Halts s

variable {post post' : α → σ → Prop} {p : Program Answer α} {s : σ}

@[simp] theorem safe_pure {value : α} :
    (pure value : Program Answer α).Safe M post s ↔ post value s :=
  Iff.rfl

@[simp] theorem safe_halt :
    (.halt : Program Answer α).Safe M post s ↔ M.Halts s :=
  Iff.rfl

theorem safe_bind {f : α → Program Answer β} {post : β → σ → Prop} :
    (p >>= f).Safe M post s ↔
      p.Safe M (fun value s => (f value).Safe M post s) s := by
  induction p generalizing s with
  | ret value => exact Iff.rfl
  | call c next ih =>
      exact and_congr_right fun _ => forall_congr' fun answer => ih answer
  | halt => exact Iff.rfl

theorem Safe.mono (h : p.Safe M post s)
    (hpost : ∀ value s, post value s → post' value s) : p.Safe M post' s := by
  induction p generalizing s with
  | ret value => exact hpost value s h
  | call c next ih => exact ⟨h.1, fun answer => ih answer (h.2 answer)⟩
  | halt => exact h

def Yields (Q : α → Prop) : Program Answer α → Prop
  | .ret value => Q value
  | .call _ next => ∀ answer, (next answer).Yields Q
  | .halt => True

theorem Safe.yields {Q : α → Prop} (h : p.Safe M post s)
    (hpost : ∀ value s, post value s → Q value) : p.Yields Q := by
  induction p generalizing s with
  | ret value => exact hpost value s h
  | call c next ih => exact fun answer => ih answer (h.2 answer)
  | halt => trivial

def Only (P : Call → Prop) : Program Answer α → Prop
  | .ret _ | .halt => True
  | .call c next => P c ∧ ∀ answer, (next answer).Only P

theorem Only.mono {P Q : Call → Prop} (h : p.Only P)
    (hPQ : ∀ c, P c → Q c) : p.Only Q := by
  induction p with
  | ret value => trivial
  | call c next ih => exact ⟨hPQ c h.1, fun answer => ih answer (h.2 answer)⟩
  | halt => trivial

theorem only_pure {P : Call → Prop} (value : α) :
    (pure value : Program Answer α).Only P :=
  trivial

theorem only_halt {P : Call → Prop} : (.halt : Program Answer α).Only P :=
  trivial

theorem Only.ite {P : Call → Prop} {C : Prop} [Decidable C]
    {q : Program Answer α} (hp : p.Only P) (hq : q.Only P) :
    (if C then p else q).Only P := by
  split
  · exact hp
  · exact hq

theorem Only.unless {P : Call → Prop} {C : Prop} [Decidable C] {value : α}
    (hp : p.Only P) : (if C then pure value else p).Only P :=
  .ite (only_pure value) hp

theorem Only.bind {P : Call → Prop} {f : α → Program Answer β} (hp : p.Only P)
    (hf : ∀ value, (f value).Only P) : (p >>= f).Only P := by
  induction p with
  | ret value => exact hf value
  | call c next ih => exact ⟨hp.1, fun answer => ih answer (hp.2 answer)⟩
  | halt => trivial

theorem Only.safe_of_yields {P : Call → Prop} {Q : α → Prop} (h : p.Only P)
    (hyields : p.Yields Q) (hignores : ∀ c, P c → M.Ignores s c)
    (hhalts : M.Halts s) (hpost : ∀ value, Q value → post value s) :
    p.Safe M post s := by
  induction p with
  | ret value => exact hpost value hyields
  | call c next ih =>
      refine ⟨(hignores c h.1).1, fun answer => ?_⟩
      rw [(hignores c h.1).2 answer]
      exact ih answer (h.2 answer) (hyields answer)
  | halt => exact hhalts

theorem yields_true (p : Program Answer α) : p.Yields fun _ => True := by
  induction p with
  | ret value => trivial
  | call c next ih => exact ih
  | halt => trivial

theorem Only.safe {P : Call → Prop} (h : p.Only P)
    (hignores : ∀ c, P c → M.Ignores s c) (hhalts : M.Halts s)
    (hpost : ∀ value, post value s) : p.Safe M post s :=
  h.safe_of_yields (yields_true p) hignores hhalts fun value _ => hpost value

theorem Safe.and (h : p.Safe M post s) (h' : p.Safe M post' s) :
    p.Safe M (fun value s => post value s ∧ post' value s) s := by
  induction p generalizing s with
  | ret value => exact ⟨h, h'⟩
  | call c next ih =>
      exact ⟨h.1, fun answer => ih answer (h.2 answer) (h'.2 answer)⟩
  | halt => exact h

theorem Safe.reaches (h : p.Safe M post s) {events : List (Event Answer)}
    {rest : Program Answer α} (hreaches : p.Reaches events rest) :
    rest.Safe M post (M.after s events) := by
  induction hreaches generalizing s with
  | refl p => exact h
  | step c next answer _ ih => exact ih (h.2 answer)

theorem Safe.allows (h : p.Safe M post s) {events : List (Event Answer)}
    {c : Call} {next : Answer c → Program Answer α}
    (hreaches : p.Reaches events (.call c next)) :
    M.Allows (M.after s events) c :=
  (h.reaches hreaches).1

theorem Safe.returns (h : p.Safe M post s) {events : List (Event Answer)}
    {value : α} (hreaches : p.Reaches events (.ret value)) :
    post value (M.after s events) :=
  h.reaches hreaches

end Program

end Pview.Foundation
