import VeaValidator.Coop.Asks
import VeaValidator.Dispatcher
import VeaValidator.Indexer
import VeaValidator.Writes

/-!
What handlers and tasks do.

Every write of an event handler and of the dispatcher is one of a few operations on the two
files, or a line of the log. None of them touches a cursor, a catch-up or a head, and none says
that a log has been handled. And a handler asks for no logs.
-/

namespace VeaValidator

open Coop

/-- One write of a handler or of the dispatcher. -/
inductive Change (s : World) : World → Prop
  | note (o : Obs) (ho : Dispatcher.Logged o) : Change s (s.note o)
  | addTask (task : Task) : Change s (s.addTask task)
  | removeTask (task : Task) : Change s (s.removeTask task)
  | rescheduleTask (task : Task) (n : ℕ) : Change s (s.rescheduleTask task n)
  | invalidateTasks (e : ℕ) (ks : List KindName) : Change s (s.invalidateTasks e ks)
  | setLastSavedCount (n : ℕ) : Change s (s.setLastSavedCount n)
  | storeClaim (c : ClaimData) : Change s (s.storeClaim c)
  | updateClaim (e : ℕ) (f : ClaimData → ClaimData) : Change s (s.updateClaim e f)
  | removeClaim (e : ℕ) : Change s (s.removeClaim e)

/-- A line that says nothing about the scan or the watcher of the epochs. -/
def Obs.Aside : Obs → Prop
  | .handled _ _ | .scanned _ _ _ _ | .initializedSync _ _ _ | .watch _ => False
  | _ => True

namespace Change

variable {s t : World}

lemma lastBlock (h : Change s t) (target : ScanTarget) : t.lastBlock target = s.lastBlock target := by
  cases h <;> rfl

lemma indexingSince (h : Change s t) : t.schedule.indexingSince = s.schedule.indexingSince := by
  cases h <;> rfl

lemma catchup (h : Change s t) (target : ScanTarget) : t.catchup target = s.catchup target := by
  cases h <;> rfl

lemma heads (h : Change s t) : t.heads = s.heads := by
  cases h <;> rfl

lemma onSync (h : Change s t) : t.schedule.onSync = s.schedule.onSync := by
  cases h <;> rfl

lemma log (h : Change s t) : t.log = s.log ∨ ∃ o : Obs, o.Aside ∧ t.log = o :: s.log := by
  cases h with
  | note o ho => exact .inr ⟨o, by cases o <;> trivial, rfl⟩
  | addTask task => exact .inr ⟨.scheduling task, trivial, rfl⟩
  | rescheduleTask task n => exact .inr ⟨.rescheduling task n, trivial, rfl⟩
  | invalidateTasks e ks =>
    unfold World.invalidateTasks
    dsimp only
    split
    · exact .inr ⟨.invalidated e _, trivial, rfl⟩
    · exact .inl rfl
  | removeTask task => exact .inl rfl
  | setLastSavedCount n => exact .inl rfl
  | storeClaim c => exact .inl rfl
  | updateClaim e f => exact .inl rfl
  | removeClaim e => exact .inl rfl

end Change

/-! ### The programs that only make such changes -/

/-- The rules of a program that makes these changes and needs no cursor. -/
abbrev changes : Protocol Unit World Panic Query.Answer :=
  .loose Change (fun _ _ => True) fun p _ => ∀ target, p ≠ .lastBlockNotSet target

abbrev Changing {α : Type} (p : M α) : Prop := Prog.Keeps changes () (fun _ => True) p

variable {route : Route}

lemma patient_changes : Patient changes () fun _ => True where
  rely _ _ _ _ _ := trivial
  issue _ _ _ _ _ := trivial
  fault p _ hp _ _ target := by
    rintro rfl
    exact hp

lemma reads_changes (e : ℕ) : Reads changes () (fun _ => True) e :=
  { patient_changes with none := fun _ _ _ _ _ => nofun, many := fun _ _ _ _ => nofun }

/-- What a handler writes is such a change. -/
lemma Event.Write.change {event : Event} {s t : World} (h : event.Write s t) : Change s t := by
  cases h with
  | store e claimer root ts hnew hnone => exact .storeClaim _
  | update hf => exact .updateClaim _ _
  | clear _ ks => exact .invalidateTasks _ ks
  | queue _ n hsettled => exact .addTask _

lemma Log.Write.change {log : Log} {target : ScanTarget} {s t : World}
    (h : log.Write target s t) : Change s t := by
  cases h with
  | act event hev h => exact h.change
  | relay task hsig hepoch hkind => exact .addTask task
  | save n => exact .setLastSavedCount n

/-- **A handler makes such changes only.** -/
lemma changing_dispatch (target : ScanTarget) (log : Log) :
    Changing (Indexer.dispatch route target log) :=
  (confined_dispatch target log).keeps patient_changes
    (fun _ _ _ _ h => ⟨h.change, trivial, trivial, trivial⟩) fun _ _ he _ _ => he

lemma clerk_changes : Dispatcher.Clerk changes () where
  note o _ ho _ := ⟨.note o ho, trivial⟩
  reschedule task n _ _ := ⟨.rescheduleTask task n, trivial⟩
  remove task _ _ := ⟨.removeTask task, trivial⟩

lemma executor_changes (route : Route) (task : Task) :
    Dispatcher.Executor changes () (fun _ => True) route task (fun _ => True) fun _ _ => True :=
  .free patient_changes (fun _ _ => trivial) (fun _ => reads_changes task.epoch) (fun _ _ => nofun)
    fun _ _ => nofun

lemma changing_processTask (now : ℕ) (task : Task) :
    Changing (Dispatcher.processTask route now task) := by
  intro w _ _
  have hdone : ∀ t : World, True ∧ True ∧ True := fun _ => ⟨trivial, trivial, trivial⟩
  exact Dispatcher.wp_processTask clerk_changes trivial (Dispatcher.wp_body
    (executor_changes route task) trivial trivial (fun _ t _ _ _ => hdone t)
    (fun _ _ _ _ t _ _ _ _ => ⟨.addTask _, trivial, hdone t⟩)
    fun _ t _ _ => ⟨.removeClaim _, trivial, hdone t⟩)

/-- **The dispatcher makes such changes only.** -/
lemma changing_run (n : ℕ) : Changing (Dispatcher.run route n) := fun _ _ _ =>
  Prog.wp_mono (fun _ _ _ => ⟨trivial, trivial⟩) (Dispatcher.wp_run (L := fun _ _ => True)
    patient_changes (fun _ _ => trivial) (fun _ _ _ _ _ _ => trivial) (fun _ _ _ _ => trivial)
    (fun now task _ t _ _ => changing_processTask now task t trivial trivial) n trivial)

/-! ### What a handler asks -/

/-- The query is not for logs. -/
def Query.Logless (q : Query) : Prop := ∀ p f, q ≠ .logs p f

abbrev Logless {α : Type} (p : M α) : Prop := p.Asks Query.Logless

namespace Logless

open Prog

variable {α : Type}

lemma expectSome {msg : String} {o : Option α} : Logless (expectSome msg o) := by
  cases o with
  | none => exact Asks.panic
  | some a => exact Asks.pure

lemma expectOk {msg : String} {r : Except String α} : Logless (expectOk msg r) := by
  cases r with
  | error e => exact Asks.panic
  | ok a => exact Asks.pure

lemma toU64 {w : Word} : Logless (toU64 w) := Asks.ite Asks.pure Asks.panic

lemma sleep {n : ℕ} : Logless (sleep n) := Asks.bind (Asks.ask nofun) fun _ => Asks.pure

lemma existsClaim {e : ℕ} : Logless (ClaimStore.existsClaim e) := Asks.bind Asks.gets fun _ => Asks.pure

lemma store {c : ClaimData} : Logless (ClaimStore.store c) :=
  Asks.bind Asks.gets fun _ => Asks.ite Asks.panic Asks.modify

lemma update {e : ℕ} {f : ClaimData → ClaimData} : Logless (ClaimStore.update e f) := by
  refine Asks.bind Asks.gets fun claims => ?_
  cases Keyed.lookup ClaimData.epoch e claims with
  | none => exact Asks.panic
  | some c => exact Asks.modify

lemma get {e : ℕ} : Logless (ClaimStore.get e) := by
  refine Asks.bind Asks.gets fun claims => ?_
  rcases Keyed.entries ClaimData.epoch e claims with _ | ⟨c, _ | ⟨c', l⟩⟩
  · exact Asks.panic
  · exact Asks.pure
  · exact Asks.panic

lemma getBlockWithRetry (provider : Provider) (block : BlockNumberOrTag) :
    Logless (getBlockWithRetry provider block) := by
  have hattempts : ∀ delays, Logless (getBlockAttempts provider block delays) := by
    intro delays
    induction delays with
    | nil => exact Asks.panic
    | cons delay delays ih =>
      refine Asks.bind (Asks.ask nofun) fun answer => ?_
      rcases answer with e | _ | b
      · exact Asks.ite Asks.panic (Asks.bind sleep fun _ => ih)
      · exact Asks.panic
      · exact Asks.pure
  exact hattempts rpcRetryDelays

lemma findBlockByTimestamp (provider : Provider) (targetTs : ℕ) :
    Logless (findBlockByTimestamp provider targetTs) := by
  have hbisect : ∀ fuel lo hi, Logless (bisect provider targetTs fuel lo hi) := by
    intro fuel
    induction fuel with
    | zero => exact fun _ _ => Asks.pure
    | succ fuel ih =>
      refine fun lo hi => Asks.ite ?_ Asks.pure
      exact Asks.bind (getBlockWithRetry _ _) fun _ => Asks.ite (ih _ _) (ih _ _)
  exact Asks.bind (getBlockWithRetry _ _) fun _ => Asks.ite Asks.pure (hbisect _ _ _)

lemma catchupTarget (target : ScanTarget) (now fromBlock : ℕ) :
    Logless (Indexer.catchupTarget target now fromBlock) := by
  refine Asks.bind Asks.gets fun _ => Asks.ite ?_ Asks.pure
  refine Asks.bind (findBlockByTimestamp _ _) fun _ => ?_
  exact Asks.bind Asks.modify fun _ => Asks.pure

lemma getLogTimestamp (log : Log) (provider : Provider) :
    Logless (Indexer.getLogTimestamp log provider) := by
  unfold Indexer.getLogTimestamp
  cases log.blockTimestamp with
  | some ts => exact Asks.pure
  | none =>
    refine Asks.bind expectSome fun _ => Asks.bind (Asks.ask nofun) fun _ => ?_
    exact Asks.bind expectOk fun _ => Asks.bind expectSome fun _ => Asks.pure

lemma missingClaim (e ts : ℕ) : Logless (Indexer.missingClaim route e ts) :=
  Asks.bind Asks.gets fun _ => Asks.ite Asks.pure Asks.panic

lemma act (log : Log) (event : Event) : Logless (Indexer.act route log event) := by
  cases event with
  | claimed e claimer root =>
    refine Asks.bind (getLogTimestamp log .outbox) fun _ => Asks.bind Asks.gets fun _ => ?_
    exact Asks.ite Asks.pure (Asks.bind store fun _ => Asks.modify)
  | verificationStarted e =>
    refine Asks.bind existsClaim fun _ => Asks.ite ?_ ?_
    · exact Asks.bind (getLogTimestamp log .outbox) fun _ => missingClaim e _
    · refine Asks.bind (getLogTimestamp log .outbox) fun _ => Asks.bind expectSome fun _ => ?_
      exact Asks.bind update fun _ => Asks.bind Asks.modify fun _ => Asks.modify
  | challenged e challenger =>
    refine Asks.bind existsClaim fun _ => Asks.ite ?_ ?_
    · exact Asks.bind (getLogTimestamp log .outbox) fun _ => missingClaim e _
    · refine Asks.bind update fun _ => Asks.bind Asks.modify fun _ => ?_
      exact Asks.bind (getLogTimestamp log .outbox) fun _ => Asks.modify
  | verified e =>
    refine Asks.bind (getLogTimestamp log .outbox) fun _ => Asks.bind existsClaim fun _ => ?_
    refine Asks.ite (missingClaim e _) (Asks.bind get fun _ => Asks.bind ?_ fun _ => ?_)
    · exact Asks.bind (Asks.ask nofun) fun _ => expectOk
    · exact Asks.bind update fun _ => Asks.bind Asks.modify fun _ => Asks.modify

lemma fetchL2ToL1FromTx (txHash : Word) (e : ℕ) :
    Logless (Indexer.fetchL2ToL1FromTx route txHash e) := by
  refine Asks.bind (Asks.ask nofun) fun _ => Asks.bind expectOk fun _ => ?_
  refine Asks.bind expectSome fun receipt => ?_
  cases Indexer.firstL2ToL1Tx receipt.logs with
  | none => exact Asks.pure
  | some decoded =>
    refine Asks.bind expectSome fun _ => Asks.bind (Asks.ask nofun) fun _ => ?_
    refine Asks.bind expectOk fun _ => Asks.bind expectSome fun _ => ?_
    exact Asks.bind toU64 fun _ => Asks.bind toU64 fun _ => Asks.bind toU64 fun _ => Asks.pure

lemma handleSnapshotSent (log : Log) : Logless (Indexer.handleSnapshotSent route log) := by
  have hparse : Logless (Indexer.parseEpochFromSnapshotSent log) := by
    unfold Indexer.parseEpochFromSnapshotSent
    cases log.topics[1]? with
    | none => exact Asks.pure
    | some t => exact Asks.bind toU64 fun _ => Asks.pure
  refine Asks.bind hparse fun epoch => ?_
  cases epoch with
  | none => exact Asks.pure
  | some epoch =>
    refine Asks.bind Asks.gets fun _ => Asks.ite Asks.pure ?_
    cases log.transactionHash with
    | none => exact Asks.pure
    | some txHash =>
      refine Asks.bind (Asks.ask nofun) fun _ => Asks.bind expectOk fun _ => ?_
      refine Asks.bind expectSome fun _ => Asks.ite Asks.pure ?_
      refine Asks.bind (fetchL2ToL1FromTx txHash epoch) fun task => ?_
      cases task with
      | none => exact Asks.pure
      | some task => exact Asks.modify

/-- **A handler asks for no logs.** -/
lemma dispatch (target : ScanTarget) (log : Log) : Logless (Indexer.dispatch route target log) := by
  cases target with
  | inbox =>
    show Logless (Indexer.dispatchInboxEvent route log)
    unfold Indexer.dispatchInboxEvent
    cases log.topics.head? with
    | none => exact Asks.pure
    | some topic0 =>
      refine Asks.ite (handleSnapshotSent log) (Asks.ite ?_ Asks.pure)
      unfold Indexer.handleSnapshotSaved
      cases log.word 64 with
      | none => exact Asks.pure
      | some w => exact Asks.bind toU64 fun _ => Asks.modify
  | outbox =>
    show Logless (Indexer.dispatchOutboxEvent route log)
    have heq := Indexer.dispatchOutboxEvent_eq route log
    cases hev : log.event? with
    | some event =>
      simp only [hev] at heq
      rw [heq]
      exact act log event
    | none =>
      simp only [hev] at heq
      rcases heq with heq | heq
      · rw [heq]
        exact Asks.pure
      · rw [heq]
        exact Asks.panic

end Logless

end VeaValidator
