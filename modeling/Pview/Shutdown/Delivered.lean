import Pview.Shutdown.DoIndexing

/-!
# Nothing is left in the queue

A store task that has a connection leaves only on `nullptr`, which it gets from
a stopped and empty queue.  So one connection among the initial store tasks is
enough for every batch to be taken.  Without one the store tasks leave the queue
as it is, and `do_indexing` reports success all the same.
-/

namespace Pview.Shutdown

open Pview.Foundation
open Pview.Indexer
open Pview.MySQL
open Pview.Queue

variable {conf : Config} {connects : conf.Connects}

/-- The first statement of the batch that was taken as the `ticket`-th has been
sent. -/
def State.FirstSent (s : State conf) (ticket : Nat) (stmts : Batch) : Prop :=
  ∃ stmt, stmts.head? = some stmt ∧ (ticket, stmt) ∈ s.sent

structure State.Delivered (s : State conf) : Prop where
  empty : s.queue.stmts = []
  taken : s.taken = s.queue.added
  first : ∀ ticket stmts, s.queue.added[ticket]? = some stmts →
    s.FirstSent ticket stmts

/-- The `dml` of the first statement of a batch reaches the server. -/
def Sends (s : State conf) : Action conf → Prop
  | .dml c reply => ∀ ticket stmts, s.storers c = .storing ticket 0 stmts →
      Attempts conf.flags.retryCount reply
  | _ => True

/-! ## The joins of the main thread -/

def MainPhase.Parsed : MainPhase → Prop
  | .start | .addStoreTasks | .addParseTasks | .joinParseTasks => False
  | _ => True

structure State.Joined (s : State conf) : Prop where
  asserted : s.main ≠ .start → 1 ≤ conf.numStoreTasks
  parsers : s.main.Parsed → ∀ p, s.parsers p = .finished
  stop : s.queue.stop = true → s.main.Parsed
  storers : s.main = .joinExtraTasks ∨ s.main = .returned →
    ∀ i, s.storers (.inl i) = .finished
  notAdded : ∀ i : Fin conf.numExtraTasks, s.extraTasks ≤ i.val →
    s.storers (.inr i) = .notStarted
  extra : s.main = .returned → ∀ i : Fin conf.numExtraTasks,
    i.val < s.extraTasks → s.storers (.inr i) = .finished

namespace State.Joined

variable {s s' : State conf}

theorem initial : (State.initial conf).Joined where
  asserted h := absurd rfl h
  parsers h := h.elim
  stop h := absurd h (by simp [State.initial, IndexQueue.empty])
  storers h := absurd h (by simp [State.initial])
  notAdded _ _ := rfl
  extra h := absurd h (by simp [State.initial])

theorem parser (h : s.Joined) {p : conf.Parser} (was : s.parsers p ≠ .finished)
    (hmain : s'.main = s.main) (hstop : s'.queue.stop = s.queue.stop)
    (hstorers : s'.storers = s.storers)
    (hextra : s'.extraTasks = s.extraTasks) : s'.Joined := by
  have hbefore : ¬s'.main.Parsed := by
    rw [hmain]
    exact fun hparsed => was (h.parsers hparsed p)
  refine ⟨?_, fun hparsed => absurd hparsed hbefore, ?_, ?_, ?_, ?_⟩
  · rw [hmain]
    exact h.asserted
  · rw [hstop, hmain]
    exact h.stop
  · rw [hmain, hstorers]
    exact h.storers
  · rw [hextra, hstorers]
    exact h.notAdded
  · rw [hmain, hextra, hstorers]
    exact h.extra

theorem storer (h : s.Joined) {c : conf.Storer} {phase : StorerPhase}
    (was : s.storers c ≠ .finished)
    (hadded : s.storers c = .notStarted → s.Added c)
    (hstorers : s'.storers = Function.update s.storers c phase)
    (hmain : s'.main = s.main) (hstop : s'.queue.stop = s.queue.stop)
    (hparsers : s'.parsers = s.parsers)
    (hextra : s'.extraTasks = s.extraTasks) : s'.Joined := by
  have hfinished : ∀ c', s.storers c' = .finished →
      s'.storers c' = .finished := by
    intro c' hc'
    have hne : c' ≠ c := by
      rintro rfl
      exact was hc'
    rw [hstorers, Function.update_of_ne hne, hc']
  refine ⟨?_, ?_, ?_, ?_, ?_, ?_⟩
  · rw [hmain]
    exact h.asserted
  · rw [hmain, hparsers]
    exact h.parsers
  · rw [hstop, hmain]
    exact h.stop
  · rw [hmain]
    exact fun hjoined i => hfinished _ (h.storers hjoined i)
  · intro i hi
    rw [hextra] at hi
    have hnot := h.notAdded i hi
    have hne : .inr i ≠ c := by
      rintro rfl
      exact absurd (hadded hnot) (Nat.not_lt.mpr hi)
    rw [hstorers, Function.update_of_ne hne, hnot]
  · rw [hmain, hextra]
    exact fun hreturned i hi => hfinished _ (h.extra hreturned i hi)

theorem before (h : s.Joined) {phase : MainPhase} (was : ¬s.main.Parsed)
    (hphase : ¬phase.Parsed) (hasserted : 1 ≤ conf.numStoreTasks) :
    ({ s with main := phase } : State conf).Joined where
  asserted _ := hasserted
  parsers hparsed := absurd hparsed hphase
  stop hstopped := absurd (h.stop hstopped) was
  storers hjoined := by
    rcases hjoined with rfl | rfl <;> exact absurd trivial hphase
  notAdded := h.notAdded
  extra := by
    rintro rfl
    exact absurd trivial hphase

theorem after (h : s.Joined) {phase : MainPhase}
    {queue : IndexQueue conf.Parser conf.Storer} (hphase : phase.Parsed)
    (was : s.main ≠ .start) (hparsers : ∀ p, s.parsers p = .finished)
    (hstorers : phase = .joinExtraTasks ∨ phase = .returned →
      ∀ i, s.storers (.inl i) = .finished)
    (hextra : phase = .returned → ∀ i : Fin conf.numExtraTasks,
      i.val < s.extraTasks → s.storers (.inr i) = .finished) :
    ({ s with main := phase, queue := queue } : State conf).Joined where
  asserted _ := h.asserted was
  parsers _ := hparsers
  stop _ := hphase
  storers := hstorers
  notAdded := h.notAdded
  extra := hextra

theorem between (h : s.Joined) {phase : MainPhase}
    {queue : IndexQueue conf.Parser conf.Storer} (was : s.main.Parsed)
    (hphase : phase.Parsed) (hextra : phase ≠ .joinExtraTasks)
    (hreturned : phase ≠ .returned) :
    ({ s with main := phase, queue := queue } : State conf).Joined := by
  have hstart : s.main ≠ .start := by
    intro hstart
    rw [hstart] at was
    exact was
  exact h.after hphase hstart (h.parsers was)
    (fun hjoined => absurd hjoined (not_or.mpr ⟨hextra, hreturned⟩))
    (fun heq => absurd heq hreturned)

theorem main (h : s.Joined) (hmoves : s.MainEffect s') : s'.Joined := by
  have hparsers : s.main.Parsed → ∀ p, s.parsers p = .finished := h.parsers
  have hasserted : s.main ≠ .start → 1 ≤ conf.numStoreTasks := h.asserted
  cases hmoves with
  | asserted was ok => exact h.before (by rw [was]; exact id) id ok
  | addStore was =>
      exact ⟨h.asserted, h.parsers, h.stop, h.storers, h.notAdded, h.extra⟩
  | storeAdded was =>
      rw [was] at hasserted
      exact h.before (by rw [was]; exact id) id (hasserted (by decide))
  | addParse was =>
      exact ⟨h.asserted, h.parsers, h.stop, h.storers, h.notAdded, h.extra⟩
  | parseAdded was =>
      rw [was] at hasserted
      exact h.before (by rw [was]; exact id) id (hasserted (by decide))
  | parseJoined was joined =>
      exact h.after trivial (by rw [was]; decide) joined (by simp) (by simp)
  | storeStop was queue moves =>
      exact h.between (by rw [was]; trivial) trivial (by decide) (by decide)
  | notifyStop was queue moves =>
      exact h.between (by rw [was]; trivial) trivial (by decide) (by decide)
  | manyStmts was =>
      exact h.between (by rw [was]; trivial) trivial (by decide) (by decide)
  | fewStmts was =>
      exact h.between (by rw [was]; trivial) trivial (by decide) (by decide)
  | addExtra was =>
      refine ⟨h.asserted, h.parsers, h.stop, h.storers, ?_, ?_⟩
      · exact fun i hi => h.notAdded i (Nat.le_of_succ_le hi)
      · intro hreturned
        rw [was] at hreturned
        contradiction
  | extraAdded was =>
      exact h.between (by rw [was]; trivial) trivial (by decide) (by decide)
  | sleeps was => exact h
  | polled was =>
      exact h.between (by rw [was]; trivial) trivial (by decide) (by decide)
  | storeJoined was joined =>
      rw [was] at hparsers
      exact h.after trivial (by rw [was]; decide) (hparsers trivial)
        (fun _ => joined) (by simp)
  | extraJoined was joined =>
      rw [was] at hparsers
      exact h.after trivial (by rw [was]; decide) (hparsers trivial)
        (fun _ => h.storers (.inl was)) (fun _ => joined)

theorem step {a : Action conf} (h : s.Joined)
    (hstep : s.step connects a = some s') : s'.Joined := by
  have hstop : ∀ {queue : IndexQueue conf.Parser conf.Storer}
      {act : Queue.Action conf.Parser conf.Storer}, act ≠ .storeStop →
        s.queue.step act = some queue → queue.stop = s.queue.stop :=
    fun hne hmoves => (IndexQueue.stop_of_step hmoves).resolve_right hne
  cases effect_of_step hstep with
  | main s' moves => exact h.main moves
  | startParse p was => exact h.parser (by rw [was]; decide) rfl rfl rfl rfl
  | fetch p was => exact h.parser (by rw [was]; decide) rfl rfl rfl rfl
  | skipUnit p was => exact h.parser (by rw [was]; decide) rfl rfl rfl rfl
  | addStmts p task after fuel wake stmts queue was batch moves =>
      exact h.parser (by rw [was]; decide) rfl (hstop (by simp) moves) rfl rfl
  | startStore c was added =>
      exact h.storer (by rw [was]; decide) (fun _ => added) rfl rfl rfl rfl rfl
  | waits c wake queue was moves same =>
      exact h.storer (by rw [was]; decide) (by simp [was]) rfl rfl
        (hstop (by simp) moves) rfl rfl
  | gets c wake queue res was moves result =>
      exact h.storer (by rw [was]; decide) (by simp [was]) rfl rfl
        (hstop (by simp) moves) rfl rfl
  | dml c reply ticket n stmts stmt was head =>
      exact h.storer (by simp [was]) (by simp [was]) rfl rfl rfl rfl rfl
  | wait w queue moves =>
      have hsame := hstop (by cases w <;> simp [Wait.action]) moves
      refine ⟨h.asserted, h.parsers, ?_, h.storers, h.notAdded, h.extra⟩
      exact fun hstopped => h.stop (hsame.symm.trans hstopped)

end State.Joined

/-! ## The batches -/

/-- The queue of a run is that of a run of the queue alone, which gets nothing
once it is stopped. -/
theorem State.queue_step {s s' : State conf} {a : Action conf}
    (hjoined : s.Joined)
    (h : (queueSystem conf.Parser conf.Storer).ReachWhere NothingAddedAfterStop
      s.queue)
    (hstep : s.step connects a = some s') :
    (queueSystem conf.Parser conf.Storer).ReachWhere NothingAddedAfterStop
      s'.queue := by
  have hmove : ∀ {queue : IndexQueue conf.Parser conf.Storer}
      {act : Queue.Action conf.Parser conf.Storer},
      (∀ p input wake, act ≠ .addStmts p input wake) →
        s.queue.step act = some queue →
          (queueSystem conf.Parser conf.Storer).ReachWhere
            NothingAddedAfterStop queue :=
    fun hne hmoves => .step h (fun _ => hne) hmoves
  cases effect_of_step hstep with
  | main s' moves =>
      cases moves with
      | storeStop was queue moves => exact hmove (by simp) moves
      | notifyStop was queue moves => exact hmove (by simp) moves
      | _ => exact h
  | addStmts p task after fuel wake stmts queue was batch moves =>
      have hallowed :
          NothingAddedAfterStop s.queue (.addStmts p stmts wake) := by
        intro hstopped
        have hfinished := hjoined.parsers (hjoined.stop hstopped) p
        rw [was] at hfinished
        contradiction
      exact .step h hallowed moves
  | waits c wake queue was moves same => exact hmove (by simp) moves
  | gets c wake queue res was moves result => exact hmove (by simp) moves
  | wait w queue moves =>
      exact hmove (by cases w <;> simp [Wait.action]) moves
  | _ => exact h

structure State.Delivers (connects : conf.Connects) (s : State conf) : Prop where
  nonempty : ∀ stmts ∈ s.queue.added, stmts ≠ []
  parsing : ∀ p, s.parsers p = .fetching ∨ s.parsers p = .indexing →
    connects.parse p = true
  added : s.queue.added ≠ [] → ∃ p, connects.parse p = true
  nullptr : ∀ c, connects.store c = true → s.storers c = .finished →
    none ∈ s.queue.returned
  first : ∀ ticket stmts, s.taken[ticket]? = some stmts →
    s.FirstSent ticket stmts ∨ ∃ c, s.storers c = .storing ticket 0 stmts

namespace State.Delivers

variable {s s' : State conf}

theorem initial : (State.initial conf).Delivers connects where
  nonempty stmts hstmts := absurd hstmts (by simp [State.initial,
    IndexQueue.empty])
  parsing p hparsing := absurd hparsing (by simp [State.initial])
  added hadded := absurd rfl hadded
  nullptr c _ hfinished := absurd hfinished (by simp [State.initial])
  first ticket stmts htaken := absurd htaken (by simp [State.initial,
    State.taken, IndexQueue.empty])

theorem queue (h : s.Delivers connects) (hparsers : s'.parsers = s.parsers)
    (hstorers : s'.storers = s.storers) (hsent : s'.sent = s.sent)
    (hadded : s'.queue.added = s.queue.added)
    (hreturned : s'.queue.returned = s.queue.returned) :
    s'.Delivers connects := by
  have htaken : s'.taken = s.taken := congrArg List.reduceOption hreturned
  refine ⟨?_, ?_, ?_, ?_, ?_⟩
  · rw [hadded]
    exact h.nonempty
  · rw [hparsers]
    exact h.parsing
  · rw [hadded]
    exact h.added
  · rw [hstorers, hreturned]
    exact h.nullptr
  · unfold State.FirstSent
    rw [htaken, hsent, hstorers]
    exact h.first

theorem parser (h : s.Delivers connects) {p : conf.Parser}
    {phase : ParserPhase}
    (hparsers : s'.parsers = Function.update s.parsers p phase)
    (hphase : phase ≠ .finished → connects.parse p = true)
    (hstorers : s'.storers = s.storers) (hsent : s'.sent = s.sent)
    (hreturned : s'.queue.returned = s.queue.returned)
    (hadded : s'.queue.added = s.queue.added ∨ connects.parse p = true ∧
      ∃ stmts, stmts ≠ [] ∧ s'.queue.added = s.queue.added ++ [stmts]) :
    s'.Delivers connects := by
  have htaken : s'.taken = s.taken := congrArg List.reduceOption hreturned
  refine ⟨?_, ?_, ?_, ?_, ?_⟩
  · rcases hadded with hsame | ⟨-, stmts, hstmts, hnew⟩
    · rw [hsame]
      exact h.nonempty
    · rw [hnew]
      intro stmts' hmem
      rcases List.mem_append.mp hmem with hold | hlast
      · exact h.nonempty _ hold
      · rwa [List.mem_singleton.mp hlast]
  · intro q
    rw [hparsers, Function.update_apply]
    split
    · rename_i hq
      rw [hq]
      rintro (rfl | rfl) <;> exact hphase (by decide)
    · exact h.parsing q
  · rcases hadded with hsame | ⟨hconnects, -⟩
    · rw [hsame]
      exact h.added
    · exact fun _ => ⟨p, hconnects⟩
  · rw [hstorers, hreturned]
    exact h.nullptr
  · unfold State.FirstSent
    rw [htaken, hsent, hstorers]
    exact h.first

theorem storer (h : s.Delivers connects) {c : conf.Storer}
    {phase : StorerPhase}
    (hstorers : s'.storers = Function.update s.storers c phase)
    (hparsers : s'.parsers = s.parsers)
    (hadded : s'.queue.added = s.queue.added)
    (hsent : ∀ entry ∈ s.sent, entry ∈ s'.sent)
    (hreturned : none ∈ s.queue.returned → none ∈ s'.queue.returned)
    (hphase : connects.store c = true → phase = .finished →
      none ∈ s'.queue.returned)
    (hfirst : ∀ ticket stmts, s.storers c = .storing ticket 0 stmts →
      s'.FirstSent ticket stmts)
    (htaken : ∀ ticket stmts, s'.taken[ticket]? = some stmts →
      s.taken[ticket]? = some stmts ∨ phase = .storing ticket 0 stmts) :
    s'.Delivers connects := by
  refine ⟨?_, ?_, ?_, ?_, ?_⟩
  · rw [hadded]
    exact h.nonempty
  · rw [hparsers]
    exact h.parsing
  · rw [hadded]
    exact h.added
  · intro c' hconnects hfinished
    rw [hstorers, Function.update_apply] at hfinished
    split at hfinished
    · rename_i hc
      rw [hc] at hconnects
      exact hphase hconnects hfinished
    · exact hreturned (h.nullptr c' hconnects hfinished)
  · intro ticket stmts hmem
    rcases htaken ticket stmts hmem with hold | hnew
    · rcases h.first ticket stmts hold with ⟨stmt, hhead, hentry⟩ | ⟨c', hc'⟩
      · exact .inl ⟨stmt, hhead, hsent _ hentry⟩
      · by_cases hc : c' = c
        · rw [hc] at hc'
          exact .inl (hfirst ticket stmts hc')
        · refine .inr ⟨c', ?_⟩
          rw [hstorers, Function.update_of_ne hc, hc']
    · refine .inr ⟨c, ?_⟩
      rw [hstorers, Function.update_self, hnew]

private theorem getElem?_append_singleton {α : Type*} {l : List α} {a b : α}
    {i : Nat} (h : (l ++ [a])[i]? = some b) :
    l[i]? = some b ∨ i = l.length ∧ a = b := by
  rw [List.getElem?_append] at h
  split_ifs at h with hlt
  · exact .inl h
  · right
    rw [List.getElem?_singleton, Option.ite_none_right_eq_some] at h
    exact ⟨by omega, Option.some.inj h.2⟩

theorem gets (h : s.Delivers connects)
    {queue : IndexQueue conf.Parser conf.Storer} (hfifo : queue.Fifo)
    {c : conf.Storer} (was : s.storers c = .getting)
    (hadded : queue.added = s.queue.added) {res : Option Batch}
    (result : queue.returned = s.queue.returned ++ [res]) :
    Delivers connects
      { s.setStorer c (onResult s.taken.length (some res)) with
        queue := queue } := by
  have hne : ∀ stmts, res = some stmts → stmts ≠ [] := by
    rintro stmts rfl
    apply h.nonempty stmts
    rw [← hadded, ← hfifo.order, result]
    simp [List.reduceOption_append]
  refine h.storer rfl rfl hadded (fun _ => id) ?_ ?_ ?_ ?_
  · intro hnull
    rw [result]
    exact List.mem_append_left _ hnull
  · intro _ hfinished
    cases res with
    | none =>
        rw [result]
        exact List.mem_append_right _ (List.mem_singleton_self none)
    | some stmts => simp [onResult, hne stmts rfl] at hfinished
  · intro ticket stmts hstoring
    rw [was] at hstoring
    contradiction
  · intro ticket stmts htaken
    simp only [taken, result, List.reduceOption_append] at htaken
    cases res with
    | none => exact .inl (by simpa [taken] using htaken)
    | some stmts' =>
        rcases getElem?_append_singleton htaken with hold | ⟨rfl, rfl⟩
        · exact .inl hold
        · exact .inr (by simp [onResult, hne stmts' rfl, taken])

theorem dml (h : s.Delivers connects) {c : conf.Storer} {reply : Reply}
    {ticket n : Nat} {stmts : Batch} {stmt : String} {phase : StorerPhase}
    (was : s.storers c = .storing ticket n stmts)
    (head : stmts[n]? = some stmt) (hphase : phase ≠ .finished)
    (hsends : ∀ ticket stmts, s.storers c = .storing ticket 0 stmts →
      Attempts conf.flags.retryCount reply) :
    Delivers connects { s.setStorer c phase with
      sent := if (MySQL.dml conf.flags.retryCount reply).tried = [] then s.sent
        else (ticket, stmt) :: s.sent } := by
  refine h.storer rfl rfl rfl ?_ id ?_ ?_ (fun _ _ htaken => .inl htaken)
  · intro entry hentry
    dsimp only
    split_ifs
    · exact hentry
    · exact List.mem_cons_of_mem _ hentry
  · exact fun _ hfinished => absurd hfinished hphase
  · intro ticket' stmts' hstoring
    have hattempts := hsends ticket' stmts' hstoring
    rw [was, StorerPhase.storing.injEq] at hstoring
    obtain ⟨rfl, rfl, rfl⟩ := hstoring
    refine ⟨stmt, ?_, ?_⟩
    · rw [← head, List.head?_eq_getElem?]
    · rw [if_neg ((dml_tried_ne_nil_iff _ _).mpr hattempts)]
      exact List.mem_cons_self

theorem step {a : Action conf} (h : s.Delivers connects)
    (hfifo : s'.queue.Fifo) (hsends : Sends s a)
    (hstep : s.step connects a = some s') : s'.Delivers connects := by
  cases effect_of_step hstep with
  | main s' moves =>
      cases moves with
      | storeStop was queue moves =>
          exact h.queue rfl rfl rfl
            (IndexQueue.added_eq_of_step (by simp) moves)
            (IndexQueue.returned_eq_of_step (by simp) moves)
      | notifyStop was queue moves =>
          exact h.queue rfl rfl rfl
            (IndexQueue.added_eq_of_step (by simp) moves)
            (IndexQueue.returned_eq_of_step (by simp) moves)
      | _ => exact h.queue rfl rfl rfl rfl rfl
  | startParse p was =>
      refine h.parser rfl ?_ rfl rfl rfl (.inl rfl)
      cases connects.parse p <;> simp
  | fetch p was =>
      exact h.parser rfl (fun _ => h.parsing p (.inl was)) rfl rfl rfl (.inl rfl)
  | skipUnit p was =>
      exact h.parser rfl (fun _ => h.parsing p (.inr was)) rfl rfl rfl (.inl rfl)
  | addStmts p task after fuel wake stmts queue was batch moves =>
      have hconnects := h.parsing p (.inr was)
      refine h.parser rfl (fun _ => hconnects) rfl rfl
        (IndexQueue.returned_eq_of_step (by simp) moves) ?_
      rcases IndexQueue.added_of_step moves with hsame | ⟨_, _, _, heq, hnew⟩
      · exact .inl hsame
      · cases heq
        exact .inr ⟨hconnects, stmts, ParseTask.stmts_ne_nil batch, hnew⟩
  | startStore c was added =>
      refine h.storer rfl rfl rfl (fun _ => id) id ?_ ?_ ?_
      · intro hconnects hfinished
        rw [hconnects] at hfinished
        contradiction
      · intro ticket stmts hstoring
        rw [was] at hstoring
        contradiction
      · exact fun ticket stmts htaken => .inl htaken
  | waits c wake queue was moves same =>
      have hadded := IndexQueue.added_eq_of_step (by simp) moves
      refine h.storer rfl rfl hadded (fun _ => id) ?_
        (fun _ hfinished => absurd hfinished (by decide)) ?_ ?_
      · exact fun hnull => same.symm ▸ hnull
      · intro ticket stmts hstoring
        rw [was] at hstoring
        contradiction
      · intro ticket stmts htaken
        simp only [taken, same] at htaken
        exact .inl htaken
  | gets c wake queue res was moves result =>
      have hsame := IndexQueue.added_eq_of_step (by simp) moves
      exact h.gets hfifo was hsame result
  | dml c reply ticket n stmts stmt was head =>
      exact h.dml was head (by split_ifs <;> simp) hsends
  | wait w queue moves =>
      have hadded := IndexQueue.added_eq_of_step
        (by cases w <;> simp [Wait.action]) moves
      have hreturned := IndexQueue.returned_eq_of_step
        (by cases w <;> simp [Wait.action]) moves
      exact h.queue rfl rfl rfl hadded hreturned

end State.Delivers

/-! ## Runs -/

structure State.Inv (connects : conf.Connects) (s : State conf) : Prop where
  joined : s.Joined
  queue : (queueSystem conf.Parser conf.Storer).ReachWhere
    NothingAddedAfterStop s.queue
  delivers : s.Delivers connects

namespace State.Inv

variable {s : State conf}

theorem fifo (h : s.Inv connects) : s.queue.Fifo :=
  IndexQueue.Fifo.of_reachable h.queue.reachable

theorem of_reachWhere (h : (doIndexing conf connects).ReachWhere Sends s) :
    s.Inv connects := by
  apply System.ReachWhere.invariant (I := State.Inv connects) _ _ h
  · exact ⟨.initial, .init, .initial⟩
  · intro s s' a hs hsends hstep
    have hqueue := State.queue_step hs.joined hs.queue hstep
    exact ⟨hs.joined.step hstep, hqueue, hs.delivers.step
      (IndexQueue.Fifo.of_reachable hqueue.reachable) hsends hstep⟩

/-- When the main thread has joined the tasks, the batches that were taken have
been sent, and it is enough that no other ones are left. -/
theorem delivered (h : s.Inv connects) (hreturned : s.main = .returned)
    (hempty : s.queue.stmts = []) : s.Delivered := by
  have htaken : s.taken = s.queue.added := by
    rw [← h.fifo.order, hempty, List.append_nil]
    rfl
  refine ⟨hempty, htaken, ?_⟩
  intro ticket stmts hadded
  rw [← htaken] at hadded
  refine (h.delivers.first ticket stmts hadded).resolve_right ?_
  rintro ⟨i | i, hstoring⟩
  · rw [h.joined.storers (.inr hreturned) i] at hstoring
    contradiction
  · by_cases hi : i.val < s.extraTasks
    · rw [h.joined.extra hreturned i hi] at hstoring
      contradiction
    · rw [h.joined.notAdded i (Nat.not_lt.mp hi)] at hstoring
      contradiction

theorem empty_of_connects (h : s.Inv connects) (hreturned : s.main = .returned)
    {i : Fin conf.numStoreTasks} (hi : connects.store (.inl i) = true) :
    s.queue.stmts = [] := by
  have hfinished := h.joined.storers (.inr hreturned) i
  have hnull := h.delivers.nullptr _ hi hfinished
  exact (IndexQueue.Drained.of_reachWhere h.queue hnull).2

theorem empty_of_silent (h : s.Inv connects)
    (hparse : ∀ p, connects.parse p = false) : s.queue.stmts = [] := by
  have hadded : s.queue.added = [] := by
    by_contra hne
    obtain ⟨p, hp⟩ := h.delivers.added hne
    rw [hparse p] at hp
    contradiction
  have horder := h.fifo.order
  rw [hadded] at horder
  exact (List.append_eq_nil_iff.mp horder).2

end State.Inv

end Pview.Shutdown
