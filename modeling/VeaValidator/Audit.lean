import VeaValidator.Evidence
import VeaValidator.Pass

/-!
The transactions of the watcher and of the dispatcher.

A body sends one transaction at most, and everything a program of a route sends is sent by the body
of a task. So each transaction rests on what the program has heard since the one before, and a pass
of the dispatcher sends at most one for each task that was due.
-/

namespace VeaValidator

open Coop

namespace Audit

variable {route : Route} {α β : Type} {e : ℕ}

/-! ### One transaction a body -/

/-- The query sends a transaction. -/
def Sends (q : Query) : Prop := ∃ tx, q = .send tx

/-- The rules of a program that sends nothing. -/
abbrev free : Protocol Unit World Panic Query.Answer :=
  .loose (fun _ _ => True) (fun q _ => q.Passive) fun _ _ => True

lemma patient_free : Patient free () fun _ => True where
  rely _ _ _ _ _ := trivial
  issue _ _ h _ _ := h
  fault _ _ _ _ _ := trivial

lemma reads_free (e : ℕ) : Reads free () (fun _ => True) e :=
  { patient_free with
    none := fun _ _ _ _ => trivial
    many := fun _ _ _ => trivial }

lemma never {p : M α} (h : Prog.Keeps free () (fun _ => True) p) : Prog.Never Sends p := by
  refine Prog.Never.of_loose h fun q _ hq => ?_
  rintro ⟨tx, rfl⟩
  exact hq

lemma never_quiet {p : M α} (h : Quiet p) : Prog.Never Sends p := never (patient_free.keeps h)

lemma never_rpc {q : Query} (hq : q.Passive) : Prog.Never Sends (rpc q).run :=
  never_quiet (Quiet.rpc hq)

lemma never_emitted (sig : Word) : Prog.Never Sends
    (ExceptT.lift (Tasks.wasEventEmitted .outbox route.outboxAddress sig e) : Fallible Bool).run :=
  Prog.Never.run_lift (never_quiet (Tasks.quiet_wasEventEmitted _ _ _ _))

lemma never_getClaim : Prog.Never Sends
    (ExceptT.lift (ClaimStore.getClaim e) : Fallible Claim).run :=
  Prog.Never.run_lift (never fun _ _ _ =>
    (reads_free e).getClaim trivial trivial fun _ _ => ⟨trivial, trivial⟩)

lemma never_get : Prog.Never Sends (ExceptT.lift (ClaimStore.get e) : Fallible ClaimData).run :=
  Prog.Never.run_lift (never fun _ _ _ =>
    (reads_free e).get trivial trivial fun _ _ => ⟨trivial, trivial⟩)

lemma never_remove : Prog.Never Sends
    (ExceptT.lift (ClaimStore.remove e) : Fallible Unit).run :=
  Prog.Never.run_lift Prog.Never.modify

/-- Once a body has sent its transaction, it sends nothing more. -/
lemma once_send {tx : Tx} {g : Except String Unit → Fallible α}
    (hg : ∀ r, Prog.Never Sends (g r).run) :
    Prog.Once Sends (ExceptT.lift (Tasks.sendTx tx).run >>= g).run :=
  Prog.Once.run_before (Prog.Once.run_lift Prog.Once.ask) hg

namespace Once

open Prog

lemma done {x : Fallible α} (h : Never Sends x.run) : Prog.Once Sends x.run := Prog.Once.of_never h

lemma saveSnapshot : Prog.Once Sends Tasks.saveSnapshot.run := by
  refine .run_later (never_rpc trivial) fun count => .run_ite (done .pure) ?_
  exact .run_later (.run_lift .gets) fun last => .run_ite (done .pure) .ask

lemma claim {now : ℕ} : Prog.Once Sends (Tasks.claim route e now).run := by
  refine .run_later (never_rpc trivial) fun epochPeriod => ?_
  refine .run_later (never_quiet (quiet_isEpochFinalized _ _ _)) fun finalized => ?_
  refine .run_ite (done .pure) (.run_later (never_rpc trivial) fun stateRoot => ?_)
  refine .run_ite (done .pure) (.run_later (never_rpc trivial) fun claimHash => ?_)
  refine .run_ite (done .pure) (.run_later (never_rpc trivial) fun current => ?_)
  refine .run_ite (done .pure) (.run_later (.run_lift .gets) fun recent => ?_)
  refine .run_ite (done .pure) (.run_later (never_quiet (Tasks.quiet_claimValue _)) fun value => ?_)
  refine once_send fun r => ?_
  cases r with
  | ok _ => exact .pure
  | error err => exact .run_bind (never_rpc trivial) fun _ => .run_ite .pure .pure

lemma challenge : Prog.Once Sends (Tasks.challenge route e).run := by
  refine .run_later (never_rpc trivial) fun epochPeriod => ?_
  refine .run_later (never_quiet (quiet_isEpochFinalized _ _ _)) fun finalized => ?_
  refine .run_ite (done .pure) (.run_later never_getClaim fun c => ?_)
  refine .run_later (never_rpc trivial) fun deposit => ?_
  refine .run_later (never_quiet (Tasks.quiet_balance _)) fun balance => .run_ite (done .pure) ?_
  refine once_send fun r => ?_
  cases r with
  | ok _ => exact .pure
  | error err =>
    refine .run_bind (never_emitted _) fun challenged => .run_ite .pure ?_
    exact .run_bind (never_emitted _) fun started => .run_ite .pure .pure

lemma sendSnapshot : Prog.Once Sends (Tasks.sendSnapshot route e).run := by
  refine .run_later never_getClaim fun c => .run_ite .ask (.run_ite .ask ?_)
  exact done (.run_lift .panic)

lemma sendUnlessChallenged {tx : ℕ → Claim → Tx} {sig : Word} :
    Prog.Once Sends (Tasks.sendUnlessChallenged route e tx sig).run := by
  refine .run_later never_get fun d => .run_ite (done .pure) ?_
  refine .run_later never_getClaim fun c => once_send fun r => ?_
  cases r with
  | ok _ => exact .pure
  | error err =>
    refine .run_bind (never_emitted _) fun emitted => .run_ite .pure ?_
    exact .run_bind (never_emitted _) fun challenged => .run_ite .pure .pure

lemma executeRelay {relay : Relay} : Prog.Once Sends (Tasks.executeRelay relay).run := by
  refine .run_later (never_rpc trivial) fun spent => .run_ite (done .pure) ?_
  refine .run_later (never_quiet (Tasks.quiet_fetchOutboxProof _)) fun ⟨proof, root⟩ => ?_
  refine .run_later (never_rpc trivial) fun r => .run_ite (done .pure) (once_send fun r => ?_)
  cases r with
  | ok _ => exact .pure
  | error _ => exact .pure

lemma withdrawDeposit : Prog.Once Sends (Tasks.withdrawDeposit e).run := by
  refine .run_later (never_rpc trivial) fun h => .run_ite (done never_remove) ?_
  refine .run_later never_getClaim fun c => .run_later ?_ fun tx => once_send fun r => ?_
  · unfold Tasks.withdrawTx
    cases c.honest with
    | none => exact .run_lift .panic
    | claimer => exact .run_lift .pure
    | challenger => exact .run_lift .pure
  · cases r with
    | ok _ => exact never_remove
    | error err => exact .run_bind (never_rpc trivial) fun _ => .run_ite never_remove .pure

/-- **A body sends one transaction at most.** -/
lemma body {task : Task} {now : ℕ} : Prog.Once Sends (Dispatcher.body route task now).run := by
  unfold Dispatcher.body
  cases task.kind with
  | saveSnapshot => exact saveSnapshot
  | claim root => exact claim
  | validateClaim =>
    refine done (never fun s _ _ => Tasks.wp_validateClaim (D := fun _ _ => True) (reads_free _)
      trivial trivial (fun _ _ _ _ => ⟨trivial, trivial⟩) (fun _ _ _ _ _ => trivial)
      (fun _ _ _ _ _ _ _ => trivial) (fun _ _ _ _ _ _ => ?_) fun _ _ _ _ _ _ _ _ => ?_)
    · exact ⟨trivial, trivial, trivial, trivial⟩
    · exact ⟨trivial, trivial, trivial, trivial⟩
  | challenge => exact challenge
  | sendSnapshot => exact sendSnapshot
  | startVerification => exact sendUnlessChallenged
  | verifySnapshot => exact sendUnlessChallenged
  | executeRelay relay => exact executeRelay
  | withdrawDeposit => exact withdrawDeposit

end Once

/-! ### The programs of a route -/

section
variable {rely : World → World → Prop} {s u : World} {l : List ((q : Query) × q.Answer)} {q : Query}
  {tx : Tx} {now : ℕ} {makeClaims : Bool}

/-- The query is asked by the body of a task, after older exchanges of the program. -/
def ByBody (route : Route) (rely : World → World → Prop) (l : List ((q : Query) × q.Answer))
    (q : Query) (u : World) : Prop :=
  ∃ old recent v task now, l = old ++ recent ∧
    (Dispatcher.body route task now).run.Comes rely v recent q u

lemma ByBody.after {old : List ((q : Query) × q.Answer)} (h : ByBody route rely l q u) :
    ByBody route rely (old ++ l) q u := by
  obtain ⟨old', recent, v, task, now, rfl, h⟩ := h
  exact ⟨old ++ old', recent, v, task, now, (List.append_assoc _ _ _).symm, h⟩

lemma never_info {C : Query → Prop} {o : Obs} : Prog.Never C (info o) := Prog.Never.modify

/-- A turn over a task asks what the body of the task asks. -/
lemma comes_processTask {task : Task}
    (h : (Dispatcher.processTask route now task).Comes rely s l q u) :
    (Dispatcher.body route task now).run.Comes rely (s.note (.executing task)) l q u := by
  obtain ⟨⟨⟩, v, l₁, l₂, rfl, ⟨rfl, -, rfl⟩, h⟩ :=
    Prog.Never.comes_rest (C := fun p => p = q) never_info h rfl
  have hfinish : ∀ success : Bool, Prog.Never (fun p => p = q) (if success then do
      info (.completed task)
      TaskStore.removeTask task
    else pure ()) := fun _ => .ite (.bind never_info fun _ => .modify) .pure
  refine Prog.Never.comes_first (fun result => .bind never_info fun _ => ?_)
    (Prog.Never.comes_first hfinish h rfl) rfl
  rcases result with e | _
  · split
    · exact .pure
    · split
      · exact .bind .modify fun _ => .pure
      · exact .pure
  · exact .pure

/-- A pass takes the tasks that are due when it starts, and after its first query it asks in a turn
over one of them. -/
lemma comes_processPending (hq : q ≠ .blockByNumber .outbox .latest)
    (h : (Dispatcher.processPending route).Comes rely s l q u) :
    s.schedule.onSync = true ∧ ∃ block w done task later v l₁ l₂,
      l = ⟨.blockByNumber .outbox .latest, .ok (some block)⟩ :: (l₁ ++ l₂) ∧
      s.schedule.tasks.filter (fun t => block.timestamp ≥ t.executeAfter) = done ++ task :: later ∧
      (forM done (Dispatcher.processTask route block.timestamp)).Talks rely w l₁ (.ok ()) v ∧
      (Dispatcher.processTask route block.timestamp task).Comes rely v l₂ q u := by
  rw [Dispatcher.processPending, TaskStore.isOnSync, Prog.comes_gets_bind] at h
  split at h
  · exact h.elim
  · next hsync =>
    rw [TaskStore.load, Prog.comes_gets_bind, Prog.comes_ask_bind] at h
    rcases h with ⟨-, hhead, -⟩ | ⟨w, -, answer, l', rfl, h⟩
    · exact absurd hhead hq
    rcases answer with e | _ | block
    · exact h.elim
    · exact h.elim
    · obtain ⟨done, task, later, v, l₁, l₂, hdue, rfl, hdone, h⟩ := Prog.comes_forM h
      exact ⟨by simpa using hsync, block, w, done, task, later, v, l₁, l₂, rfl, hdue, hdone, h⟩

/-- What the dispatcher asks is its clock, its pause, or asked by a body. -/
lemma byBody_dispatcher (hhead : q ≠ .blockByNumber .outbox .latest) (hsleep : ∀ n, q ≠ .sleep n)
    (n : ℕ) (h : (Dispatcher.run route n).Comes rely s l q u) : ByBody route rely l q u := by
  have hpause : Prog.Never (fun p => p = q) (sleep Dispatcher.pollInterval) :=
    .bind (.ask fun hp => hsleep _ hp.symm) fun _ => .pure
  induction n generalizing s l with
  | zero => exact h.elim
  | succ n ih =>
    rcases Prog.comes_bind.mp h with h | ⟨⟨⟩, v, l₁, l₂, rfl, -, h⟩
    · obtain ⟨-, block, w, done, task, later, v, l₁, l₂, rfl, -, -, h⟩ :=
        comes_processPending hhead h
      exact ⟨_ :: l₁, l₂, _, task, block.timestamp, rfl, comes_processTask h⟩
    · obtain ⟨⟨⟩, w, m₁, m₂, rfl, -, h⟩ := hpause.comes_rest h rfl
      exact ((ih h).after).after

/-- The watcher sends what a body would send: it calls two of them. -/
lemma byBody_watcher (epochPeriod n : ℕ) (m : EpochWatcher.Memory)
    (h : (EpochWatcher.watchEpochs route makeClaims epochPeriod n m).Comes rely s l (.send tx) u) :
    ByBody route rely l (.send tx) u := by
  obtain ⟨old, recent, w, e, now, rfl, hsave | hclaim⟩ :=
    EpochWatcher.calling_watchEpochs (q := .send tx) nofun nofun n m h
  · exact ⟨old, recent, _, ⟨e, now, .saveSnapshot⟩, now, rfl, hsave⟩
  · exact ⟨old, recent, _, ⟨e, now, .claim 0⟩, now, rfl, hclaim⟩

lemma never_indexer (n : ℕ) : Prog.Never Sends (Indexer.run route n) := by
  have hcatchup : ∀ target f, Prog.Keeps free () (fun _ => True) (Indexer.modifyCatchup target f) :=
    fun _ _ _ _ _ => ⟨trivial, trivial, trivial, trivial⟩
  have hhandle : ∀ target log,
      Prog.Keeps free () (fun _ => True) (Indexer.handle route target log) := by
    intro target log w _ _
    have hconfined : Confined (log.Write target) (Indexer.dispatch route target log) :=
      confined_dispatch target log
    have hdispatch := hconfined.keeps patient_free
      (fun _ _ _ _ _ => ⟨trivial, trivial, trivial, trivial⟩) (fun _ _ _ _ _ => trivial) w trivial
      trivial
    exact Indexer.wp_handle hdispatch fun _ _ => ⟨trivial, trivial, trivial, trivial⟩
  have hblock : ∀ target a b logs,
      Prog.Keeps free () (fun _ => True) (TaskStore.updateBlock target a b logs) :=
    fun _ _ _ _ _ _ _ => ⟨trivial, trivial, trivial, trivial⟩
  refine never fun w _ _ => ?_
  refine Prog.wp_mono (fun _ _ h => ⟨h.1, trivial⟩) (Indexer.wp_run patient_free
    (fun target v hIv hJ => ?_) (fun _ _ _ => ⟨trivial, trivial, trivial, trivial⟩) n trivial
    trivial)
  exact Indexer.keeps_scanChain patient_free (fun _ _ _ => trivial) (hcatchup target)
    (hblock target) (hhandle target) v hIv hJ

/-- Every transaction of a route is asked for by the body of some task. -/
lemma byBody_branch {epochPeriod : ℕ} {i : Thread} {p : M Unit}
    (hp : Main.branch route makeClaims epochPeriod i p) (h : p.Comes rely s l (.send tx) u) :
    ByBody route rely l (.send tx) u := by
  rcases i with (_ | _) | _
  · obtain ⟨n, rfl⟩ := hp
    exact absurd ⟨tx, rfl⟩ (never_indexer n _ _ _ _ _ h)
  · obtain ⟨n, rfl⟩ := hp
    exact byBody_dispatcher nofun nofun n h
  · obtain ⟨n, rfl⟩ := hp
    exact byBody_watcher _ n _ h

/-- What the body of a task sends is backed by what it has heard. -/
lemma backed_of_byBody (h : ByBody route rely l (.send tx) u) :
    ∃ old recent, l = old ++ recent ∧ (∀ x ∈ recent, ∀ tx, x.1 ≠ .send tx) ∧
      Backed route (Prog.In recent) tx u := by
  obtain ⟨old, recent, v, task, now, rfl, hbody⟩ := h
  refine ⟨old, recent, rfl, fun x hx tx' hx' => ?_, ?_⟩
  · exact Once.body _ _ _ _ _ hbody ⟨tx, rfl⟩ x hx ⟨tx', hx'⟩
  · have hsound : Sound route (Prog.In recent) (.send tx) u :=
      Prog.Leaves.comes (fun _ => Leaves.body) hbody
    exact hsound tx rfl

/-- **Every transaction is backed.** Whatever the nodes answer and whatever becomes of the stores
while a program of the route waits: when it sends a transaction, it has heard what the transaction
rests on since it sent the last one. -/
theorem transactions_backed {epochPeriod : ℕ} {i : Thread} {p : M Unit}
    (hp : Main.branch route makeClaims epochPeriod i p) (h : p.Comes rely s l (.send tx) u) :
    ∃ old recent, l = old ++ recent ∧ (∀ x ∈ recent, ∀ tx, x.1 ≠ .send tx) ∧
      Backed route (Prog.In recent) tx u :=
  backed_of_byBody (byBody_branch hp h)

end

/-- Epoch 3 has the snapshot 7 and no claim yet. -/
def sampleNode : (q : Query) → q.Answer
  | .blockByNumber _ _ => .ok (some ⟨1, 15600⟩)
  | .epochPeriod => .ok 3600
  | .snapshots _ => .ok 7
  | .claimHashes _ => .ok 0
  | .stateRoot => .ok 1
  | .deposit => .ok 5
  | .send _ => .ok ()
  | .sleep _ => .ok ()
  | _ => .error "timed out"

/-- What the watcher hears before it claims the epoch. -/
def sampleHeard : List ((q : Query) × q.Answer) :=
  [⟨.blockByNumber .inbox .latest, .ok (some ⟨1, 15600⟩)⟩, ⟨.epochPeriod, .ok 3600⟩,
    ⟨.snapshots 3, .ok 7⟩, ⟨.claimHashes 3, .ok 0⟩, ⟨.stateRoot, .ok 1⟩, ⟨.deposit, .ok 5⟩]

theorem transactions_backed_sample : ∃ u old recent, sampleHeard = old ++ recent ∧
    (∀ x ∈ recent, ∀ tx, x.1 ≠ .send tx) ∧
    Backed Sample.route (Prog.In recent) (.claim 3 7 (some 5)) u := by
  have hexchanges : (EpochWatcher.watchEpochs Sample.route true 3600 1 {}).exchanges sampleNode
      EpochWatcher.onSync =
        sampleHeard ++ [⟨.send (.claim 3 7 (some 5)), .ok ()⟩, ⟨.sleep 10, .ok ()⟩] := by rfl
  have htalk := Prog.talks_exchanges (fun _ => rfl) sampleNode
    (EpochWatcher.watchEpochs Sample.route true 3600 1 {}) EpochWatcher.onSync
  rw [hexchanges] at htalk
  obtain ⟨u, hu⟩ := htalk.comes
  have hbranch : Main.branch Sample.route true 3600 (.inr ())
      (EpochWatcher.watchEpochs Sample.route true 3600 1 {}) := ⟨1, rfl⟩
  exact ⟨u, transactions_backed hbranch hu⟩

/-! ### The transactions of a pass -/

def txOf? : (q : Query) → Option Tx
  | .send tx => some tx
  | _ => none

/-- The transactions that have been sent. -/
def sent (l : List ((q : Query) × q.Answer)) : List Tx := l.filterMap fun x => txOf? x.1

@[simp] lemma sent_append (l l' : List ((q : Query) × q.Answer)) :
    sent (l ++ l') = sent l ++ sent l' := List.filterMap_append

lemma sent_eq_nil {l : List ((q : Query) × q.Answer)} (h : ∀ x ∈ l, ¬Sends x.1) : sent l = [] := by
  refine List.filterMap_eq_nil_iff.mpr fun x hx => ?_
  obtain ⟨q, a⟩ := x
  cases q with
  | send tx => exact absurd ⟨tx, rfl⟩ (h _ hx)
  | _ => rfl

section
variable {rely : World → World → Prop} {s t u : World} {l : List ((q : Query) × q.Answer)} {tx : Tx}
  {now : ℕ} {task : Task}

/-- A body sends what its task is for. -/
lemma sent_body (h : (Dispatcher.body route task now).run.Comes rely s l (.send tx) u) :
    Gate.Sent route task tx := by
  let P : Protocol Unit World Panic Query.Answer :=
    .loose (fun _ _ => True) (fun q _ => ∀ tx, q = .send tx → Gate.Sent route task tx)
      fun _ _ => True
  have hp : Patient P () fun _ => True :=
    ⟨fun _ _ _ _ _ => trivial, fun q _ hq _ _ tx htx => by subst htx; exact hq.elim,
      fun _ _ _ _ _ => trivial⟩
  have hreads : Reads P () (fun _ => True) task.epoch :=
    { hp with
      none := fun _ _ _ _ => trivial
      many := fun _ _ _ => trivial }
  have hbody : Prog.Keeps P () (fun _ => True) (Dispatcher.body route task now).run := by
    refine Gate.keeps_body hreads (fun _ _ _ => trivial) (fun _ _ _ => trivial)
      (fun tx _ htx _ _ tx' h => ?_) (fun _ _ _ _ _ _ => ⟨trivial, trivial, trivial, trivial⟩)
      fun _ _ _ => ⟨trivial, trivial, trivial, trivial⟩
    cases h
    exact htx
  exact Prog.wp_comes (hbody s trivial trivial) (fun _ _ _ => ⟨trivial, trivial⟩)
    (fun _ _ _ => trivial) h tx rfl

lemma once_processTask : Prog.Once Sends (Dispatcher.processTask route now task) := by
  rintro rely s l q u h ⟨tx, rfl⟩
  exact Once.body _ _ _ _ _ (comes_processTask h) ⟨tx, rfl⟩

/-- A turn sends one transaction for its task, or none. -/
lemma sent_processTask {r : Except Panic Unit}
    (h : (Dispatcher.processTask route now task).Talks rely s l r t) :
    sent l = [] ∨ ∃ tx, sent l = [tx] ∧ Gate.Sent route task tx := by
  rcases once_processTask.split h with hnone | ⟨_, a, l₁, l₂, u, rfl, ⟨tx, rfl⟩, hc, h₁, h₂⟩
  · exact .inl (sent_eq_nil hnone)
  · refine .inr ⟨tx, ?_, sent_body (comes_processTask hc)⟩
    rw [sent_append, sent_eq_nil h₁]
    show tx :: sent l₂ = [tx]
    rw [sent_eq_nil h₂]

/-- The turns over some tasks send, in their order, at most one transaction each. -/
lemma sent_processTasks {done : List Task}
    (h : (forM done (Dispatcher.processTask route now)).Talks rely s l (.ok ()) t) :
    ∃ tasks, tasks.Sublist done ∧ List.Forall₂ (Gate.Sent route) tasks (sent l) := by
  induction done generalizing s l with
  | nil =>
    obtain ⟨rfl, -⟩ := h
    exact ⟨[], List.Sublist.refl _, .nil⟩
  | cons task done ih =>
    rw [List.forM_cons] at h
    rcases Prog.talks_bind.mp h with ⟨⟨⟩, v, l₁, l₂, rfl, hturn, hrest⟩ | ⟨e, he, -⟩
    · obtain ⟨tasks, hsub, hsent⟩ := ih hrest
      rw [sent_append]
      rcases sent_processTask hturn with hnone | ⟨tx, htx, hfor⟩
      · rw [hnone]
        exact ⟨tasks, hsub.cons task, hsent⟩
      · rw [htx]
        exact ⟨task :: tasks, hsub.cons_cons task, .cons hfor hsent⟩
    · cases he

/-- **A pass pays once for a task.** Whatever happens meanwhile: the transactions a pass has sent
and the one it is sending are, in this order, for different tasks of the queue it has started with,
all of them due at the time of the block it has asked for; and the route was on sync then. -/
theorem pass_transactions (h : (Dispatcher.processPending route).Comes rely s l (.send tx) u) :
    s.schedule.onSync = true ∧
    ∃ block rest tasks, l = ⟨.blockByNumber .outbox .latest, .ok (some block)⟩ :: rest ∧
      tasks.Sublist (s.schedule.tasks.filter fun t => block.timestamp ≥ t.executeAfter) ∧
      List.Forall₂ (Gate.Sent route) tasks (sent rest ++ [tx]) := by
  obtain ⟨hsync, block, w, done, task, later, v, l₁, l₂, rfl, hdue, hdone, h⟩ :=
    comes_processPending (q := .send tx) nofun h
  obtain ⟨tasks, hsub, hsent⟩ := sent_processTasks hdone
  have hbody := comes_processTask h
  have hlast : sent l₂ = [] := sent_eq_nil (Once.body _ _ _ _ _ hbody ⟨tx, rfl⟩)
  refine ⟨hsync, block, l₁ ++ l₂, tasks ++ [task], rfl, ?_, ?_⟩
  · rw [hdue]
    exact hsub.append (List.singleton_sublist.mpr List.mem_cons_self)
  · rw [sent_append, hlast, List.append_nil]
    exact List.rel_append hsent (.cons (sent_body hbody) .nil)

end

/-- Two relays are due at 50, and a third is not. -/
def sampleRelay (position : Word) : Relay := ⟨position, 0, 0, 0, 0, 0, 0, []⟩

def samplePass : World :=
  { schedule := { onSync := true,
                  tasks := [⟨1, 40, .executeRelay (sampleRelay 1)⟩,
                    ⟨2, 60, .executeRelay (sampleRelay 2)⟩,
                    ⟨3, 50, .executeRelay (sampleRelay 3)⟩] } }

def relayNode : (q : Query) → q.Answer
  | .blockByNumber _ _ => .ok (some ⟨1, 50⟩)
  | .isSpent _ => .ok false
  | .sendMerkleTreeState => .ok 4
  | .constructOutboxProof _ _ => .ok ([], 8)
  | .roots _ => .ok 9
  | .send _ => .ok ()
  | _ => .error "timed out"

/-- What the pass hears before it sends the relay of a message. -/
def relayHeard (position : Word) : List ((q : Query) × q.Answer) :=
  [⟨.isSpent position, .ok false⟩, ⟨.sendMerkleTreeState, .ok 4⟩,
    ⟨.constructOutboxProof 4 position.toNat, .ok ([], 8)⟩, ⟨.roots 8, .ok 9⟩]

theorem pass_transactions_sample : ∃ tasks : List Task,
    tasks.Sublist [⟨1, 40, .executeRelay (sampleRelay 1)⟩, ⟨3, 50, .executeRelay (sampleRelay 3)⟩] ∧
    List.Forall₂ (Gate.Sent Sample.route) tasks
      [.executeTransaction [] (sampleRelay 1), .executeTransaction [] (sampleRelay 3)] := by
  have hexchanges : (Dispatcher.processPending Sample.route).exchanges relayNode samplePass =
      (⟨.blockByNumber .outbox .latest, .ok (some ⟨1, 50⟩)⟩ :: (relayHeard 1 ++
        ⟨.send (.executeTransaction [] (sampleRelay 1)), .ok ()⟩ :: relayHeard 3)) ++
        [⟨.send (.executeTransaction [] (sampleRelay 3)), .ok ()⟩] := by rfl
  have htalk := Prog.talks_exchanges (fun _ => rfl) relayNode
    (Dispatcher.processPending Sample.route) samplePass
  rw [hexchanges] at htalk
  obtain ⟨u, hu⟩ := htalk.comes
  obtain ⟨-, block, rest, tasks, hl, hsub, hsent⟩ := pass_transactions hu
  cases hl
  exact ⟨tasks, hsub, hsent⟩

/-! ### The turns of a pass -/

/-- A turn over a task, from its first line to its last write: the body has returned `result` in the
store `w`, and without an error only if it has heard that its work is done. -/
def Turn (route : Route) (rely : World → World → Prop) (now : ℕ) (task : Task) (s : World)
    (l : List ((q : Query) × q.Answer)) (t : World) : Prop :=
  ∃ result w, (Dispatcher.body route task now).run.Talks rely (s.note (.executing task)) l
      (.ok result) w ∧
    (result = .ok () → Finished route (Prog.In l) task now w) ∧
    t = Dispatcher.finish now task result w

/-- One turn after the other over the tasks of a list. -/
inductive Turns (route : Route) (rely : World → World → Prop) (now : ℕ) :
    List Task → World → List ((q : Query) × q.Answer) → World → Prop
  | nil (s : World) : Turns route rely now [] s [] s
  | cons {task : Task} {tasks : List Task} {s t u : World} {l m : List ((q : Query) × q.Answer)} :
      Turn route rely now task s l t → Turns route rely now tasks t m u →
      Turns route rely now (task :: tasks) s (l ++ m) u

section
variable {rely : World → World → Prop} {s t : World} {l : List ((q : Query) × q.Answer)} {now : ℕ}
  {task : Task}

lemma turn_of_talks (h : (Dispatcher.processTask route now task).Talks rely s l (.ok ()) t) :
    Turn route rely now task s l t := by
  obtain ⟨result, w, hbody, rfl⟩ := Pass.talks_processTask h
  refine ⟨result, w, hbody, ?_, rfl⟩
  rintro rfl
  exact Prog.Leaves.talks (fun _ => Leaves.body) hbody

lemma turns_of_talks {tasks : List Task}
    (h : (forM tasks (Dispatcher.processTask route now)).Talks rely s l (.ok ()) t) :
    Turns route rely now tasks s l t := by
  induction tasks generalizing s l with
  | nil =>
    obtain ⟨rfl, -, rfl⟩ := h
    exact .nil _
  | cons task tasks ih =>
    rw [List.forM_cons] at h
    obtain ⟨⟨⟩, v, l₁, l₂, rfl, hturn, hrest⟩ | ⟨e, he, -⟩ := Prog.talks_bind.mp h
    · exact .cons (turn_of_talks hturn) (ih hrest)
    · cases he

/-- **A pass leaves no task out, and takes none for done that is not.** Whatever happens meanwhile: a
pass that has come to its end was made on sync, and it has had one turn over each task that was due
in the queue it started with, in this order. When a body has returned without an error, it has heard
in its own turn that the work of its task is done or that there is none. -/
theorem pass_finished {block : Header} (h : (Dispatcher.processPending route).Talks rely s
      (⟨.blockByNumber .outbox .latest, .ok (some block)⟩ :: l) (.ok ()) t) :
    s.schedule.onSync = true ∧ ∃ u, rely s u ∧ Turns route rely block.timestamp
      (s.schedule.tasks.filter fun task => block.timestamp ≥ task.executeAfter) u l t := by
  rw [Dispatcher.processPending] at h
  obtain ⟨sync, v, l₁, l₂, hl, ⟨rfl, hsync, rfl⟩, h⟩ | ⟨e, he, -⟩ := Prog.talks_bind.mp h
  · obtain rfl : sync = v.schedule.onSync := Except.ok.inj hsync
    rw [List.nil_append] at hl
    subst hl
    split at h
    · cases h.1
    · next honSync =>
      obtain ⟨u, hu, answer, rest, hl, hturns⟩ := h
      cases hl
      exact ⟨by simpa using honSync, u, hu, turns_of_talks hturns⟩
  · cases he

end

theorem pass_finished_sample : ∃ u l t, Turns Sample.route Eq 50
    [⟨1, 40, .executeRelay (sampleRelay 1)⟩, ⟨3, 50, .executeRelay (sampleRelay 3)⟩] u l t := by
  have hexchanges : (Dispatcher.processPending Sample.route).exchanges relayNode samplePass =
      ⟨.blockByNumber .outbox .latest, .ok (some ⟨1, 50⟩)⟩ :: (relayHeard 1 ++
        ⟨.send (.executeTransaction [] (sampleRelay 1)), .ok ()⟩ :: relayHeard 3 ++
        [⟨.send (.executeTransaction [] (sampleRelay 3)), .ok ()⟩]) := by rfl
  have hend : ((Dispatcher.processPending Sample.route).eval relayNode samplePass).1 = .ok () := by
    rfl
  have htalk := Prog.talks_exchanges (fun _ => rfl) relayNode
    (Dispatcher.processPending Sample.route) samplePass
  rw [hexchanges, hend] at htalk
  obtain ⟨-, u, -, hturns⟩ := pass_finished htalk
  exact ⟨u, _, _, hturns⟩

end Audit

end VeaValidator
