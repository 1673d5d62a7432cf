import Pview.Startup.Processes

/-!
# What becomes of a child

A child process runs the same code as its parent.  It leaves it by its `execve`;
if that fails, every caller takes the answer 0 of `fork` for an error, down to
the return from `main`.  After that only the destructor of the global thread
pool is left, whose workers have stayed behind in the parent.
-/

namespace Pview.Startup

open Pview.Foundation
open Pview.Foundation.Program
open Pview.Tasks

inductive Role where
  | parent
  | child
  /-- A child whose `execve` has returned. -/
  | failed
  /-- Its thread pool has been destroyed. -/
  | exiting
  deriving DecidableEq, Repr

/-- A parent does not call `execve`, a child calls it first, and after that only
the destructor of the pool. -/
def roles : Monitor Answer Role where
  Allows
    | .parent, .execve .. => False
    | .parent, _ => True
    | .child, .execve .. => True
    | .failed, .destroyThreadPool => True
    | .child, _ | .failed, _ | .exiting, _ => False
  Halts role := role = .parent
  next
    | .parent, .fork, pid => if pid = 0 then .child else .parent
    | .parent, _, _ => .parent
    | .child, _, _ => .failed
    | .failed, _, _ | .exiting, _, _ => .exiting

theorem roles_ignores {c : Call} (h : c.Plain) : roles.Ignores .parent c := by
  cases c <;> first | exact h.elim | exact ⟨trivial, fun _ => rfl⟩

theorem Plain.roles {α : Type} {p : Process α} (h : Plain p)
    {post : α → Role → Prop} (hpost : ∀ value, post value .parent) :
    p.Safe roles post .parent :=
  h.safe (fun _ => roles_ignores) rfl hpost

def ErrorIfFailed {α : Type} (error : α → Prop) (value : α) (role : Role) :
    Prop :=
  role = .parent ∨ role = .failed ∧ error value

theorem startChildProcess_roles (cmd : String) (argv : List (Option String)) :
    (startChildProcess cmd argv).Safe roles (ErrorIfFailed fun pid => pid = 0)
      .parent := by
  refine safe_ask.mpr ⟨trivial, fun pid => ?_⟩
  by_cases hminus : pid = -1
  · subst hminus
    exact .inl rfl
  · by_cases hzero : pid = 0
    · subst hzero
      exact ⟨trivial, fun _ => .inr ⟨rfl, rfl⟩⟩
    · rw [if_neg hminus, if_neg hzero]
      exact .inl (if_neg hzero)

theorem waitCommand_roles (childPid : Int) {post : Bool → Role → Prop}
    (hpost : ∀ value, post value .parent) (fuel : Nat) :
    (waitCommand childPid fuel).Safe roles post .parent := by
  induction fuel with
  | zero => exact rfl
  | succ fuel ih =>
      refine safe_ask.mpr ⟨trivial, ?_⟩
      rintro ⟨w, wstatus⟩
      by_cases hw : w = -1
      · simp only [if_pos hw]
        exact hpost true
      · simp only [if_neg hw]
        cases wstatus with
        | exited status => exact hpost _
        | signaled sig => exact hpost _
        | stopped sig => exact ih
        | continued => exact ih
        | unknown => exact hpost _

theorem checkCommand_roles (fuel : Nat) (cmd : String)
    (argv : List (Option String)) :
    (checkCommand fuel cmd argv).Safe roles
      (ErrorIfFailed fun error => error = true) .parent := by
  refine safe_bind.mpr ((startChildProcess_roles cmd argv).mono ?_)
  rintro pid role (rfl | ⟨rfl, rfl⟩)
  · by_cases hpid : pid ≤ 0
    · rw [if_pos hpid]
      exact .inl rfl
    · rw [if_neg hpid]
      exact waitCommand_roles pid (fun _ => .inl rfl) fuel
  · exact .inr ⟨rfl, rfl⟩

theorem initMysqldDataDir_roles (conf : MYSQLDConf) (fuel : Nat) :
    (conf.initMysqldDataDir fuel).Safe roles
      (ErrorIfFailed fun error => error = true) .parent := by
  refine safe_ask.mpr ⟨trivial, ?_⟩
  rintro (_ | _ | _)
  · exact rfl
  · exact .inl rfl
  · refine safe_bind.mpr ((Local.createMysqldDatadir conf).plain.roles ?_)
    rintro (_ | _)
    · refine safe_bind.mpr ((Local.checkMysqldInitArgs conf []).plain.roles ?_)
      rintro (_ | args)
      · exact .inl rfl
      · by_cases hmany : kMaxNumArgs ≤ args.length
        · simp only [if_pos hmany]
          exact .inl rfl
        · simp only [if_neg hmany]
          exact checkCommand_roles fuel conf.mysqld (conf.buildArgv args)
    · exact .inl rfl

theorem execMysqld_roles (conf : MYSQLDConf) :
    conf.execMysqld.Safe roles (ErrorIfFailed fun pid => pid = 0) .parent := by
  refine safe_bind.mpr ((Local.checkMysqldRunArgs conf []).plain.roles ?_)
  rintro (_ | args)
  · exact .inl rfl
  · by_cases hmany : kMaxNumArgs ≤ args.length
    · simp only [if_pos hmany]
      exact .inl rfl
    · simp only [if_neg hmany]
      exact startChildProcess_roles conf.mysqld (conf.buildArgv args)

theorem MYSQLMgr.startMysqld_roles (m : MYSQLMgr) (fuel : Nat) :
    (m.startMysqld fuel).Safe roles
      (ErrorIfFailed fun result => result = (true, m)) .parent := by
  unfold startMysqld
  split
  · exact .inl rfl
  · refine safe_bind.mpr ((initMysqldDataDir_roles m.conf fuel).mono ?_)
    rintro (_ | _) role (rfl | ⟨rfl, herror⟩)
    · refine safe_bind.mpr ((execMysqld_roles m.conf).mono ?_)
      rintro pid role (rfl | ⟨rfl, rfl⟩)
      · by_cases hpid : pid ≤ 0
        · rw [if_pos hpid]
          exact .inl rfl
        · rw [if_neg hpid]
          exact .inl rfl
      · exact .inr ⟨rfl, rfl⟩
    · contradiction
    · exact .inl rfl
    · exact .inr ⟨rfl, rfl⟩

theorem MYSQLMgr.destroy_roles (m : MYSQLMgr) {post : Unit → Role → Prop}
    (hpost : post () .parent) : m.destroy.Safe roles post .parent := by
  unfold destroy killMysqld
  split
  · split
    · exact ⟨trivial, fun _ => hpost⟩
    · exact hpost
  · exact hpost

theorem startManaged_roles (flags : Flags) (fuel : Nat) :
    (flags.startManaged fuel).Safe roles
      (ErrorIfFailed fun result => result = none) .parent := by
  unfold Flags.startManaged
  split
  · exact .inl rfl
  · refine safe_bind.mpr ((Local.getMysqldSetting flags).plain.roles ?_)
    rintro (_ | conf)
    · exact .inl rfl
    · refine safe_bind.mpr
        ((MYSQLMgr.startMysqld_roles { conf := conf } fuel).mono ?_)
      rintro ⟨error, m⟩ role (rfl | ⟨rfl, herror⟩)
      · cases error with
        | true => exact safe_bind.mpr (m.destroy_roles (.inl rfl))
        | false => exact .inl rfl
      · cases herror
        have hdestroy := MYSQLMgr.destroy_eq_pure conf
        simp only [if_true, hdestroy]
        exact .inr ⟨rfl, rfl⟩

theorem doMain_roles (flags : Flags) (cpus : UInt32) (fuel : Nat) :
    (flags.doMain cpus fuel).Safe roles
      (ErrorIfFailed fun result => result = (1, none)) .parent := by
  by_cases hdop : (determineDop cpus flags.maxDop).numParseTasks < 1 ∨
      (determineDop cpus flags.maxDop).numStoreTasks < 1
  · simp only [Flags.doMain, if_pos hdop]
    exact rfl
  · simp only [Flags.doMain, if_neg hdop]
    refine safe_ask.mpr ⟨trivial, ?_⟩
    rintro (_ | numCmds)
    · exact .inl rfl
    · simp only
      split_ifs
      · exact .inl rfl
      · exact rfl
      · refine safe_bind.mpr ((startManaged_roles flags fuel).mono ?_)
        rintro (_ | m) role (rfl | ⟨rfl, hnone⟩)
        · exact .inl rfl
        · exact .inr ⟨rfl, rfl⟩
        · refine safe_bind.mpr ((Plain.prepareAndRun flags _).roles ?_)
          exact fun ret => .inl rfl
        · contradiction

/-- The process is the parent, or its status is 1. -/
def OneIfExiting (ret : Int) (role : Role) : Prop :=
  role = .parent ∨ role = .exiting ∧ ret = 1

theorem main_roles (flags : Flags) (cpus : UInt32) (fuel : Nat) :
    (flags.main cpus fuel).Safe roles OneIfExiting .parent := by
  refine safe_bind.mpr ((doMain_roles flags cpus fuel).mono ?_)
  rintro ⟨ret, m⟩ role (rfl | ⟨rfl, heq⟩)
  · refine safe_ask.mpr ⟨trivial, fun _ => ?_⟩
    cases m with
    | none => exact .inl rfl
    | some m => exact safe_bind.mpr (m.destroy_roles (.inl rfl))
  · cases heq
    exact ⟨trivial, fun _ => .inr ⟨rfl, rfl⟩⟩

/-! ## Runs -/

theorem eq_append_fork_of_child {events : List Event}
    (h : roles.after .parent events = .child) :
    ∃ before, events = before ++ [⟨.fork, (0 : Int)⟩] := by
  induction events using List.reverseRecOn with
  | nil => contradiction
  | append_singleton before event =>
      obtain ⟨c, answer⟩ := event
      rw [Monitor.after_append_singleton] at h
      cases hrole : roles.after .parent before with
      | child => exact absurd (hrole ▸ h) (by simp [roles])
      | failed => exact absurd (hrole ▸ h) (by simp [roles])
      | exiting => exact absurd (hrole ▸ h) (by simp [roles])
      | parent =>
          rw [hrole] at h
          cases c with
          | fork =>
              have hzero : answer = (0 : Int) := by
                by_contra hne
                exact absurd h (by simp [roles, hne])
              exact ⟨before, by rw [hzero]⟩
          | _ => contradiction

/-- What a child has done since the `fork`, and what is left to it. -/
inductive ChildRun : List Event → Process Int → Prop
  | forked (cmd : String) (argv : List (Option String))
      (next : Unit → Process Int) : ChildRun [] (.call (.execve cmd argv) next)
  /-- `main` has returned 1. -/
  | returned (cmd : String) (argv : List (Option String))
      (next : Unit → Process Int) (status : next () = .ret 1) :
      ChildRun [⟨.execve cmd argv, ()⟩] (.call .destroyThreadPool next)
  | exited (cmd : String) (argv : List (Option String)) :
      ChildRun [⟨.execve cmd argv, ()⟩, ⟨.destroyThreadPool, ()⟩] (.ret 1)

theorem eq_ret_of_exiting {p : Process Int}
    (h : p.Safe roles OneIfExiting .exiting) : p = .ret 1 := by
  cases p with
  | ret value =>
      obtain hparent | ⟨-, hvalue⟩ := h
      · contradiction
      · rw [hvalue]
  | call c next => exact h.1.elim
  | halt => contradiction

theorem childRun_of_failed {p : Process Int}
    (h : p.Safe roles OneIfExiting .failed) (cmd : String)
    (argv : List (Option String)) {events : List Event} {rest : Process Int}
    (hreaches : p.Reaches events rest) :
    ChildRun (⟨.execve cmd argv, ()⟩ :: events) rest := by
  cases p with
  | ret value => exact absurd h (by simp [Safe, OneIfExiting])
  | halt => exact absurd h (by simp [Safe, roles])
  | call c next =>
      cases c with
      | destroyThreadPool =>
          have hstatus := eq_ret_of_exiting (h.2 ())
          cases hreaches with
          | refl => exact .returned cmd argv next hstatus
          | step c next answer hafter =>
              rw [show next answer = .ret 1 from hstatus] at hafter
              cases hafter
              exact .exited cmd argv
      | _ => exact h.1.elim

theorem childRun_of_child {p : Process Int}
    (h : p.Safe roles OneIfExiting .child) {events : List Event}
    {rest : Process Int} (hreaches : p.Reaches events rest) :
    ChildRun events rest := by
  cases p with
  | ret value => exact absurd h (by simp [Safe, OneIfExiting])
  | halt => exact absurd h (by simp [Safe, roles])
  | call c next =>
      cases c with
      | execve cmd argv =>
          cases hreaches with
          | refl => exact .forked cmd argv next
          | step c next answer hafter =>
              exact childRun_of_failed (h.2 answer) cmd argv hafter
      | _ => exact h.1.elim

/--
A process calls `execve` only as a child, right after its `fork` was answered
with 0; and a child does nothing else: if its `execve` returns then `main`
returns 1 with no other call, and all that is left is the destructor of the
thread pool.
-/
theorem main_children (flags : Flags) (cpus : UInt32) (fuel : Nat) :
    (∀ events cmd argv next,
      (flags.main cpus fuel).Reaches events (.call (.execve cmd argv) next) →
        ∃ before, events = before ++ [⟨.fork, (0 : Int)⟩]) ∧
    ∀ before events rest,
      (flags.main cpus fuel).Reaches
        (before ++ ⟨.fork, (0 : Int)⟩ :: events) rest →
      ChildRun events rest := by
  have hsafe := main_roles flags cpus fuel
  constructor
  · intro events cmd argv next h
    apply eq_append_fork_of_child
    have hallows := hsafe.allows h
    cases hrole : roles.after .parent events with
    | child => rfl
    | parent => exact (hrole ▸ hallows).elim
    | failed => exact (hrole ▸ hallows).elim
    | exiting => exact (hrole ▸ hallows).elim
  · intro before events rest h
    obtain ⟨q, hq, hevents⟩ := Reaches.append_iff.mp h
    have hq := hsafe.reaches hq
    cases hevents with
    | step c next answer hevents =>
        cases hrole : roles.after .parent before with
        | parent =>
            rw [hrole] at hq
            exact childRun_of_child (hq.2 (0 : Int)) hevents
        | child => exact (hrole ▸ hq.1).elim
        | failed => exact (hrole ▸ hq.1).elim
        | exiting => exact (hrole ▸ hq.1).elim

end Pview.Startup
