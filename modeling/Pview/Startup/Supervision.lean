import Pview.Startup.Children
import Pview.Startup.CommandLines

/-!
# The server does not live longer

The process has at most one child at a time.  It waits for the one that
initializes the data directory and, with `kill_at_exit`, kills the other one at
its end, as its last call.
-/

namespace Pview.Startup

open Pview.Foundation
open Pview.Foundation.Program
open Pview.Tasks

inductive Watch where
  | idle
  /-- This child has been neither waited for nor killed. -/
  | running (pid : Int)
  /-- A wait for the child told nothing. -/
  | lost
  | killed
  deriving DecidableEq, Repr

def supervision (killAtExit : Bool) : Monitor Answer Watch where
  Allows
    | .killed, _ => False
    | .idle, .fork => True
    | .running pid, .waitpid waited => waited = pid
    | .running pid, .kill killed => killed = pid ∧ killAtExit = true
    | _, .fork | _, .waitpid _ | _, .kill _ => False
    | _, _ => True
  Halts _ := True
  next
    | w, .fork, pid => if (0 : Int) < pid then .running pid else w
    | w, .waitpid _, (waited, wstatus) =>
        if waited = -1 then .lost
        else
          match wstatus with
          | .exited _ | .signaled _ => .idle
          | .stopped _ | .continued => w
          | .unknown => .lost
    | _, .kill _, _ => .killed
    | w, _, _ => w

variable {killAtExit : Bool}

theorem supervision_ignores {w : Watch} (hw : w ≠ .killed) {c : Call}
    (h : c.Plain) : (supervision killAtExit).Ignores w c := by
  cases w <;> first
    | exact absurd rfl hw
    | cases c <;> first | exact h.elim | exact ⟨trivial, fun _ => rfl⟩

theorem Plain.supervision {α : Type} {p : Process α} (h : Plain p) {w : Watch}
    (hw : w ≠ .killed) {post : α → Watch → Prop}
    (hpost : ∀ value, post value w) :
    p.Safe (supervision killAtExit) post w :=
  h.safe (fun _ => supervision_ignores hw) trivial hpost

theorem startChildProcess_supervision (cmd : String)
    (argv : List (Option String)) :
    (startChildProcess cmd argv).Safe (supervision killAtExit)
      (fun pid w => 0 < pid ∧ w = .running pid ∨ pid ≤ 0 ∧ w = .idle) .idle := by
  refine safe_ask.mpr ⟨trivial, fun pid => ?_⟩
  by_cases hminus : pid = -1
  · subst hminus
    exact .inr ⟨by decide, rfl⟩
  · by_cases hzero : pid = 0
    · subst hzero
      exact ⟨trivial, fun _ => .inr ⟨le_refl _, rfl⟩⟩
    · rw [if_neg hminus, if_neg hzero]
      by_cases hpos : 0 < pid
      · exact .inl ⟨hpos, if_pos hpos⟩
      · exact .inr ⟨Int.not_lt.mp hpos, if_neg hpos⟩

/-- What a failure may leave behind. -/
def DoneOrLost (error : Bool) (w : Watch) : Prop :=
  w = .idle ∨ w = .lost ∧ error = true

theorem waitCommand_supervision (pid : Int) (fuel : Nat) :
    (waitCommand pid fuel).Safe (supervision killAtExit) DoneOrLost
      (.running pid) := by
  induction fuel with
  | zero => trivial
  | succ fuel ih =>
      refine safe_ask.mpr ⟨rfl, ?_⟩
      rintro ⟨waited, wstatus⟩
      by_cases hwaited : waited = -1
      · subst hwaited
        exact .inr ⟨rfl, rfl⟩
      · simp only [if_neg hwaited, supervision]
        cases wstatus with
        | exited status => exact .inl rfl
        | signaled sig => exact .inl rfl
        | stopped sig => exact ih
        | continued => exact ih
        | unknown => exact .inr ⟨rfl, rfl⟩

theorem checkCommand_supervision (fuel : Nat) (cmd : String)
    (argv : List (Option String)) :
    (checkCommand fuel cmd argv).Safe (supervision killAtExit) DoneOrLost
      .idle := by
  refine safe_bind.mpr ((startChildProcess_supervision cmd argv).mono ?_)
  rintro pid w (⟨hpos, rfl⟩ | ⟨hpid, rfl⟩)
  · rw [if_neg (by omega)]
    exact waitCommand_supervision pid fuel
  · rw [if_pos hpid]
    exact .inl rfl

theorem initMysqldDataDir_supervision (conf : MYSQLDConf) (fuel : Nat) :
    (conf.initMysqldDataDir fuel).Safe (supervision killAtExit) DoneOrLost
      .idle := by
  refine safe_ask.mpr ⟨trivial, ?_⟩
  rintro (_ | _ | _)
  · trivial
  · exact .inl rfl
  · have hidle : Watch.idle ≠ .killed := by decide
    refine safe_bind.mpr
      ((Local.createMysqldDatadir conf).plain.supervision hidle ?_)
    rintro (_ | _)
    · refine safe_bind.mpr
        ((Local.checkMysqldInitArgs conf []).plain.supervision hidle ?_)
      rintro (_ | args)
      · exact .inl rfl
      · simp only
        split
        · exact .inl rfl
        · exact checkCommand_supervision fuel conf.mysqld (conf.buildArgv args)
    · exact .inl rfl

theorem execMysqld_supervision (conf : MYSQLDConf) :
    conf.execMysqld.Safe (supervision killAtExit)
      (fun pid w => 0 < pid ∧ w = .running pid ∨ pid ≤ 0 ∧ w = .idle) .idle := by
  refine safe_bind.mpr
    ((Local.checkMysqldRunArgs conf []).plain.supervision (by simp) ?_)
  rintro (_ | args)
  · exact .inr ⟨by decide, rfl⟩
  · simp only
    split
    · exact .inr ⟨by decide, rfl⟩
    · exact startChildProcess_supervision conf.mysqld (conf.buildArgv args)

def Knows (m : MYSQLMgr) (w : Watch) : Prop :=
  ∃ pid : Int, 0 < pid ∧ m.status = ⟨true, pid⟩ ∧ w = .running pid

theorem startMysqld_supervision (conf : MYSQLDConf) (fuel : Nat) :
    (MYSQLMgr.startMysqld { conf := conf } fuel).Safe (supervision killAtExit)
      (fun result w => result.2.conf = conf ∧
        (result = (true, { conf := conf }) ∧ (w = .idle ∨ w = .lost) ∨
          result.1 = false ∧ Knows result.2 w)) .idle := by
  refine safe_bind.mpr ((initMysqldDataDir_supervision conf fuel).mono ?_)
  rintro (_ | _) w (rfl | ⟨rfl, herror⟩)
  · refine safe_bind.mpr ((execMysqld_supervision conf).mono ?_)
    rintro pid w (⟨hpos, rfl⟩ | ⟨hpid, rfl⟩)
    · rw [if_neg (by omega)]
      exact ⟨rfl, .inr ⟨rfl, pid, hpos, rfl, rfl⟩⟩
    · rw [if_pos hpid]
      exact ⟨rfl, .inl ⟨rfl, .inl rfl⟩⟩
  · contradiction
  · exact ⟨rfl, .inl ⟨rfl, .inl rfl⟩⟩
  · exact ⟨rfl, .inl ⟨rfl, .inr rfl⟩⟩

theorem destroy_supervision {m : MYSQLMgr} {w : Watch} (hknows : Knows m w)
    (hkill : m.conf.killAtExit = killAtExit) {post : Unit → Watch → Prop}
    (hkilled : post () .killed)
    (hleft : killAtExit = false → post () w) :
    m.destroy.Safe (supervision killAtExit) post w := by
  obtain ⟨pid, hpos, hstatus, rfl⟩ := hknows
  unfold MYSQLMgr.destroy MYSQLMgr.killMysqld
  rw [hkill, hstatus]
  cases killAtExit with
  | false => exact hleft rfl
  | true =>
      simp only [if_true, hpos, decide_true, Bool.and_self]
      exact ⟨⟨rfl, rfl⟩, fun _ => hkilled⟩

theorem getMysqldSetting_killAtExit (flags : Flags) :
    flags.getMysqldSetting.Yields fun result => ∀ conf, result = some conf →
      conf.killAtExit = flags.killMysqldAtExit := by
  have hsafe : flags.getMysqldSetting.Safe (launches flags) _ [] :=
    getMysqldSetting_launches
  exact hsafe.yields fun _ _ hresult conf hconf =>
    (hresult.2 conf hconf).killAtExit

theorem startManaged_supervision (flags : Flags) (fuel : Nat) :
    (flags.startManaged fuel).Safe (supervision flags.killMysqldAtExit)
      (fun result w =>
        (result = none ∧ (w = .idle ∨ w = .lost)) ∨
        (result = some none ∧ w = .idle) ∨
        ∃ m, result = some (some m) ∧ Knows m w ∧
          m.conf.killAtExit = flags.killMysqldAtExit) .idle := by
  unfold Flags.startManaged
  split
  · exact .inr (.inl ⟨rfl, rfl⟩)
  · refine safe_bind.mpr ((Local.getMysqldSetting flags).plain.safe_of_yields
      (getMysqldSetting_killAtExit flags)
      (fun _ => supervision_ignores (by simp)) trivial ?_)
    rintro (_ | conf) hconf
    · exact .inl ⟨rfl, .inl rfl⟩
    · refine safe_bind.mpr ((startMysqld_supervision conf fuel).mono ?_)
      rintro ⟨error, m⟩ w ⟨hm, ⟨heq, hw⟩ | ⟨rfl, hknows⟩⟩
      · cases heq
        have hdestroy := MYSQLMgr.destroy_eq_pure conf
        simp only [if_true, hdestroy]
        exact .inl ⟨rfl, hw⟩
      · refine .inr (.inr ⟨m, rfl, hknows, ?_⟩)
        rw [show m.conf = conf from hm]
        exact hconf conf rfl

/-- No child is left but one that was lost, or that is not to be killed. -/
def Reaped (killAtExit : Bool) (w : Watch) : Prop :=
  ∀ pid, w = .running pid → killAtExit = false

theorem doMain_supervision (flags : Flags) (cpus : UInt32) (fuel : Nat) :
    (flags.doMain cpus fuel).Safe (supervision flags.killMysqldAtExit)
      (fun result w => (result.2 = none ∧ (w = .idle ∨ w = .lost)) ∨
        ∃ m, result.2 = some m ∧ Knows m w ∧
          m.conf.killAtExit = flags.killMysqldAtExit) .idle := by
  by_cases hdop : (determineDop cpus flags.maxDop).numParseTasks < 1 ∨
      (determineDop cpus flags.maxDop).numStoreTasks < 1
  · simp only [Flags.doMain, if_pos hdop]
    trivial
  · simp only [Flags.doMain, if_neg hdop]
    refine safe_ask.mpr ⟨trivial, ?_⟩
    rintro (_ | numCmds)
    · exact .inl ⟨rfl, .inl rfl⟩
    · simp only
      split_ifs
      · exact .inl ⟨rfl, .inl rfl⟩
      · trivial
      · refine safe_bind.mpr ((startManaged_supervision flags fuel).mono ?_)
        rintro _ w (⟨rfl, hw⟩ | ⟨rfl, rfl⟩ | ⟨m, rfl, hknows, hkill⟩)
        · exact .inl ⟨rfl, hw⟩
        · have hidle : Watch.idle ≠ .killed := by decide
          refine safe_bind.mpr
            ((Plain.prepareAndRun flags _).supervision hidle ?_)
          exact fun ret => .inl ⟨rfl, .inl rfl⟩
        · refine safe_bind.mpr
            ((Plain.prepareAndRun flags _).supervision ?_ ?_)
          · obtain ⟨pid, -, -, rfl⟩ := hknows
            simp
          · exact fun ret => .inr ⟨m, rfl, hknows, hkill⟩

theorem main_safe_supervision (flags : Flags) (cpus : UInt32) (fuel : Nat) :
    (flags.main cpus fuel).Safe (supervision flags.killMysqldAtExit)
      (fun _ w => Reaped flags.killMysqldAtExit w) .idle := by
  refine safe_bind.mpr ((doMain_supervision flags cpus fuel).mono ?_)
  rintro ⟨ret, m⟩ w (⟨hnone, hw⟩ | ⟨m, hsome, hknows, hkill⟩)
  · cases hnone
    rcases hw with rfl | rfl
    · exact ⟨trivial, fun _ _ heq => by cases heq⟩
    · exact ⟨trivial, fun _ _ heq => by cases heq⟩
  · cases hsome
    obtain ⟨pid, -, -, rfl⟩ := id hknows
    refine safe_ask.mpr ⟨trivial, fun _ => ?_⟩
    exact safe_bind.mpr (destroy_supervision hknows hkill (by simp [Reaped])
      fun hleft _ _ => hleft)

/--
In every run of a process: there is never more than one child; a child is waited
for or killed only as long as it is there, and killed only with `kill_at_exit`;
nothing happens after the kill; and with `kill_at_exit` no child is left when
the process has ended, unless a wait for it told nothing.
-/
theorem main_supervision (flags : Flags) (cpus : UInt32) (fuel : Nat) :
    (∀ events c next, (flags.main cpus fuel).Reaches events (.call c next) →
      (supervision flags.killMysqldAtExit).Allows
        ((supervision flags.killMysqldAtExit).after .idle events) c) ∧
    ∀ events ret, (flags.main cpus fuel).Reaches events (.ret ret) →
      Reaped flags.killMysqldAtExit
        ((supervision flags.killMysqldAtExit).after .idle events) := by
  have hsafe := main_safe_supervision flags cpus fuel
  exact ⟨fun events c next h => hsafe.allows h,
    fun events ret h => hsafe.returns h⟩

/-- The connection fails; what was started is killed all the same. -/
def refusesConnections : (c : Call) → Option (Answer c)
  | .fork => some (7 : Int)
  | .isEmpty _ => some (some false)
  | .access .. | .openWritable _ | .getDriverInstance => some true
  | .autoDetectFromDirectory _ => some (some 1)
  | .connect _ => some false
  | .kill _ => some (0 : Int)
  | .destroyThreadPool => some ()
  | _ => none

example :
    let run := (managedFlags.main 4 1).answered refusesConnections
    run.1.getLast? = some ⟨.kill 7, (0 : Int)⟩ ∧ run.2 = .ret 1 :=
  ⟨rfl, rfl⟩

end Pview.Startup
