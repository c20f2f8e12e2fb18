import VeaValidator.Epochs
import VeaValidator.Scanning
import VeaValidator.Writes

/-!
The `SnapshotSent` logs of others.

Anybody can send a snapshot of any epoch, and as often as they like. `handle_snapshot_sent` asks who
has signed the transaction before it fetches the message, and the guard before that only reads the
queue. So a foreign log does nothing, wherever it stands, and what is queued is the message of an own
transaction, once for an epoch.
-/

namespace VeaValidator

open Coop
open Prog (Local Idle Without evals)

namespace Filtering

variable {route : Route} {log : Log} {s t w : World} {e : ℕ}

/-! ### A foreign log does nothing -/

/-- The two files. -/
def files (w : World) : RouteState × List ClaimData := (w.schedule, w.claims)

/-- The step handles a `SnapshotSent` log of an epoch below `2 ^ 64`, and the nodes name a signer of
its transaction who is not `wallet`. -/
def Foreign (wallet : Address) : Op → Prop
  | .handle .inbox log o =>
    log.topics.head? = some sigSnapshotSent ∧
      (∀ topic, log.topics[1]? = some topic → topic.toNat < 2 ^ 64) ∧
      ∀ txHash, log.transactionHash = some txHash →
        ∃ signer, o (.transactionByHash txHash) = .ok (some signer) ∧ signer ≠ wallet
  | _ => False

lemma like_foreign {o : (q : Query) → q.Answer}
    (h : Foreign route.walletAddress (.handle .inbox log o)) :
    Prog.Like o w (Indexer.handleSnapshotSent route log) (pure ()) := by
  obtain ⟨-, hepoch, hsigner⟩ := h
  rw [Indexer.handleSnapshotSent, Indexer.parseEpochFromSnapshotSent]
  rcases htopic : log.topics[1]? with _ | topic
  · exact .refl
  have hfits : toU64 topic = pure topic.toNat := if_pos (hepoch topic htopic)
  dsimp only
  rw [hfits, pure_bind, pure_bind]
  refine Prog.Like.trans Prog.Like.gets_bind ?_
  by_cases hqueued : (w.schedule.tasks.any fun task =>
      task.epoch = topic.toNat ∧ task.kind.name = .executeRelay) = true
  · rw [if_pos hqueued]
    exact .refl
  rw [if_neg hqueued]
  rcases hhash : log.transactionHash with _ | txHash
  · exact .refl
  obtain ⟨signer, hanswer, hne⟩ := hsigner txHash hhash
  refine Prog.Like.trans Prog.Like.ask_bind ?_
  rw [hanswer, expectOk, pure_bind, expectSome, pure_bind, if_pos hne]
  exact .refl

/-- **A foreign log is idle.** -/
lemma idle_of_foreign {op : Op} (h : Foreign route.walletAddress op) :
    Idle files op.answers (op.run route) := by
  intro w
  cases op with
  | store op => exact h.elim
  | handle target log o =>
    cases target with
    | outbox => exact h.elim
    | inbox =>
      have hhandle : Prog.Like o w (Indexer.handle route .inbox log)
          (info (.handled .inbox log)) := by
        have hdispatch : Indexer.dispatch route .inbox log = Indexer.handleSnapshotSent route log := by
          rw [Indexer.dispatch, Indexer.dispatchInboxEvent, h.1]
          exact if_pos rfl
        rw [Indexer.handle, hdispatch]
        exact (like_foreign h).bind
      refine ⟨(), ?_⟩
      show ((Indexer.handle route .inbox log).eval o w).1 = _ ∧
        files ((Indexer.handle route .inbox log).eval o w).2 = _
      rw [hhandle.1]
      exact ⟨rfl, rfl⟩

/-! ### Every step sees the two files only -/

lemma local_load : Local files TaskStore.load := .gets fun _ _ h => congrArg Prod.fst h

lemma local_loadAll : Local files ClaimStore.loadAll := .gets fun _ _ h => congrArg Prod.snd h

/-- An operation that changes the files by what they are. -/
lemma local_modify {f : World → World} (g : RouteState × List ClaimData → RouteState × List ClaimData)
    (hf : ∀ w, files (f w) = g (files w)) : Local files (Prog.modify f : M Unit) :=
  .modify fun s t h => by rw [hf, hf, h]

lemma local_addTask (task : Task) : Local files (TaskStore.addTask task) :=
  local_modify (fun x => ({ x.1 with tasks := x.1.tasks ++ [task] }, x.2)) fun _ => rfl

lemma local_invalidateTasks (ks : List KindName) : Local files (TaskStore.invalidateTasks e ks) :=
  local_modify (fun x => ({ x.1 with tasks := x.1.tasks.filter fun task =>
    !(task.epoch = e ∧ task.kind.name ∈ ks) }, x.2)) fun _ => rfl

lemma local_setLastSavedCount (n : ℕ) : Local files (TaskStore.setLastSavedCount n) :=
  local_modify (fun x => ({ x.1 with lastSavedCount := some n }, x.2)) fun _ => rfl

lemma local_store (c : ClaimData) : Local files (ClaimStore.store c) :=
  local_loadAll.bind fun _ => .ite .panic
    (local_modify (fun x => (x.1, x.2 ++ [c])) fun _ => rfl)

lemma local_update (f : ClaimData → ClaimData) : Local files (ClaimStore.update e f) := by
  refine local_loadAll.bind fun claims => ?_
  cases Keyed.lookup ClaimData.epoch e claims with
  | none => exact .panic
  | some c =>
    exact local_modify (fun x => (x.1, Keyed.update ClaimData.epoch e f x.2)) fun _ => rfl

lemma local_get : Local files (ClaimStore.get e) := by
  refine local_loadAll.bind fun claims => ?_
  rcases Keyed.entries ClaimData.epoch e claims with _ | ⟨c, _ | ⟨c', l⟩⟩
  · exact .panic
  · exact .pure
  · exact .panic

lemma local_existsClaim : Local files (ClaimStore.existsClaim e) :=
  local_loadAll.bind fun _ => .pure

lemma local_missingClaim (ts : ℕ) : Local files (Indexer.missingClaim route e ts) :=
  local_load.bind fun _ => .ite .pure .panic

lemma local_act (event : Event) : Local files (Indexer.act route log event) := by
  cases event with
  | claimed e claimer root =>
    refine (Epochs.local_getLogTimestamp .outbox).bind fun ts => local_load.bind fun state => ?_
    exact .ite .pure ((local_store _).bind fun _ => local_addTask _)
  | verificationStarted e =>
    refine local_existsClaim.bind fun stored => .ite ?_ ?_
    · exact (Epochs.local_getLogTimestamp .outbox).bind fun ts => local_missingClaim ts
    · refine (Epochs.local_getLogTimestamp .outbox).bind fun ts => ?_
      refine (Epochs.local_expectSome _ _).bind fun n => (local_update _).bind fun _ => ?_
      exact (local_invalidateTasks _).bind fun _ => local_addTask _
  | challenged e challenger =>
    refine local_existsClaim.bind fun stored => .ite ?_ ?_
    · exact (Epochs.local_getLogTimestamp .outbox).bind fun ts => local_missingClaim ts
    · refine (local_update _).bind fun _ => (local_invalidateTasks _).bind fun _ => ?_
      exact (Epochs.local_getLogTimestamp .outbox).bind fun ts => local_addTask _
  | verified e =>
    refine (Epochs.local_getLogTimestamp .outbox).bind fun ts => ?_
    refine local_existsClaim.bind fun stored => .ite (local_missingClaim ts) ?_
    refine local_get.bind fun claim => ?_
    refine (Local.ask.bind fun a => Epochs.local_expectOk _ _).bind fun root => ?_
    refine (local_update _).bind fun _ => (local_invalidateTasks _).bind fun _ => local_addTask _

lemma local_handleSnapshotSent : Local files (Indexer.handleSnapshotSent route log) := by
  rw [Indexer.handleSnapshotSent, Indexer.parseEpochFromSnapshotSent]
  cases log.topics[1]? with
  | none => exact .pure
  | some topic =>
    refine ((Epochs.local_toU64 topic).bind fun n => .pure).bind fun epoch => ?_
    cases epoch with
    | none => exact .pure
    | some epoch =>
      refine local_load.bind fun state => .ite .pure ?_
      cases log.transactionHash with
      | none => exact .pure
      | some txHash =>
        refine Local.ask.bind fun a => (Epochs.local_expectOk _ _).bind fun tx => ?_
        refine (Epochs.local_expectSome _ _).bind fun signer => .ite .pure ?_
        refine (Epochs.local_fetchL2ToL1FromTx txHash epoch).bind fun task => ?_
        cases task with
        | none => exact .pure
        | some task => exact local_addTask task

lemma local_handleSnapshotSaved : Local files (Indexer.handleSnapshotSaved log) := by
  rw [Indexer.handleSnapshotSaved]
  cases log.word 64 with
  | none => exact .pure
  | some count => exact (Epochs.local_toU64 count).bind fun n => local_setLastSavedCount n

lemma local_run (op : Op) : Local files (op.run route) := by
  cases op with
  | store op =>
    cases op with
    | removeTask task =>
      exact local_modify (fun x => ({ x.1 with
        tasks := Keyed.erase Task.key task.key x.1.tasks }, x.2)) fun _ => rfl
    | rescheduleTask task n =>
      exact local_modify (fun x => ({ x.1 with
        tasks := Keyed.update Task.key task.key (fun t => { t with executeAfter := n }) x.1.tasks },
        x.2)) fun _ => rfl
    | followUp e n claimed root => exact local_addTask _
    | removeClaim e =>
      exact local_modify (fun x => (x.1, Keyed.erase ClaimData.epoch e x.2)) fun _ => rfl
  | handle target log o =>
    refine Local.bind ?_ fun _ => .modify fun s t hst => hst
    cases target with
    | outbox =>
      have heq := Indexer.dispatchOutboxEvent_eq route log
      show Local files (Indexer.dispatchOutboxEvent route log)
      cases hev : log.event? with
      | some event =>
        simp only [hev] at heq
        rw [heq]
        exact local_act event
      | none =>
        simp only [hev] at heq
        rcases heq with heq | heq
        · rw [heq]
          exact .pure
        · rw [heq]
          exact .panic
    | inbox =>
      show Local files (Indexer.dispatchInboxEvent route log)
      rw [Indexer.dispatchInboxEvent]
      cases log.topics.head? with
      | none => exact .pure
      | some topic0 =>
        exact .ite local_handleSnapshotSent (.ite local_handleSnapshotSaved .pure)

/-- **Foreign logs have no influence.** Any of them can be left out, whatever else is done. -/
lemma evals_without_foreign {ops ops' : List Op}
    (h : Without (Foreign route.walletAddress) ops ops') (w : World) :
    (evals Op.answers (Op.run route) ops w).1 = (evals Op.answers (Op.run route) ops' w).1 ∧
      files (evals Op.answers (Op.run route) ops w).2 =
        files (evals Op.answers (Op.run route) ops' w).2 :=
  Prog.evals_without local_run (fun _ hx => idle_of_foreign hx) h rfl

/-! ### What is queued -/

/-- The transactions of the inbox's chain: who has signed them, and their receipts. -/
structure Transactions where
  signer : Word → Option Address
  receipt : Word → Option Receipt

/-- What the nodes say of a transaction is so. -/
def Truthful (T : Transactions) : Role → (q : Query) → q.Answer → World → Prop
  | .indexer, .transactionByHash txHash, .ok (some signer), _ => T.signer txHash = some signer
  | .indexer, .transactionReceipt txHash, .ok (some receipt), _ => T.receipt txHash = some receipt
  | _, _, _, _ => True

/-- The message is the first one of a transaction `wallet` has signed. -/
def Sent (T : Transactions) (wallet : Address) (tx : L2ToL1Tx) : Prop :=
  ∃ txHash receipt, T.signer txHash = some wallet ∧ T.receipt txHash = some receipt ∧
    Indexer.FirstMessage receipt.logs tx

/-- The keys of the queued relays. -/
def relayKeys (w : World) : List (ℕ × KindName) :=
  (w.schedule.tasks.map Task.key).filter fun key => key.2 = .executeRelay

structure Inv (T : Transactions) (wallet : Address) (w : World) : Prop where
  own : ∀ task ∈ w.schedule.tasks, ∀ relay, task.kind = .executeRelay relay →
    ∃ tx, Sent T wallet tx ∧ relay.Carries tx
  once : (relayKeys w).Nodup

variable {T : Transactions} {wallet : Address}

lemma mem_relayKeys : (e, .executeRelay) ∈ relayKeys w ↔ w.Queued e .executeRelay := by
  rw [relayKeys, List.mem_filter]
  exact and_iff_left (decide_eq_true rfl)

/-- What queues nothing keeps the relays. -/
lemma Inv.of_tasks (h : Inv T wallet s)
    (htasks : ∀ task ∈ t.schedule.tasks, ∃ task' ∈ s.schedule.tasks, task.kind = task'.kind)
    (hkeys : (t.schedule.tasks.map Task.key).Sublist (s.schedule.tasks.map Task.key)) :
    Inv T wallet t where
  own task ht relay hrelay := by
    obtain ⟨task', ht', hkind⟩ := htasks task ht
    exact h.own task' ht' relay (hkind.symm.trans hrelay)
  once := h.once.sublist (hkeys.filter _)

/-- A change of the files that leaves the queue. -/
lemma Inv.of_eq (h : Inv T wallet s) (htasks : t.schedule.tasks = s.schedule.tasks) :
    Inv T wallet t := by
  refine h.of_tasks (fun task ht => ⟨task, htasks ▸ ht, rfl⟩) ?_
  rw [htasks]

lemma inv_removeTask {task : Task} (h : Inv T wallet s) : Inv T wallet (s.removeTask task) :=
  h.of_tasks (fun task' ht => ⟨task', List.mem_of_mem_filter ht, rfl⟩) (s.keys_removeTask task)

lemma inv_rescheduleTask {task : Task} {n : ℕ} (h : Inv T wallet s) :
    Inv T wallet (s.rescheduleTask task n) := by
  refine h.of_tasks (fun task' ht => ?_) ?_
  · obtain ⟨task'', ht'', hor⟩ := Keyed.mem_update ht
    rcases hor with rfl | rfl
    · exact ⟨task', ht'', rfl⟩
    · exact ⟨task'', ht'', rfl⟩
  · rw [World.keys_rescheduleTask]

lemma inv_invalidateTasks (ks : List KindName) (h : Inv T wallet s) :
    Inv T wallet (s.invalidateTasks e ks) :=
  h.of_tasks (fun task ht => ⟨task, List.mem_of_mem_filter ht, rfl⟩) (s.keys_invalidateTasks e ks)

lemma relayKeys_addTask {task : Task} :
    relayKeys (s.addTask task) =
      relayKeys s ++ if task.kind.name = .executeRelay then [task.key] else [] := by
  rw [relayKeys, World.keys_addTask, List.filter_append, ← relayKeys]
  by_cases h : task.kind.name = .executeRelay <;> simp [Task.key, h]

/-- A task that is no relay. -/
lemma inv_addTask {task : Task} (h : Inv T wallet s) (hkind : task.kind.name ≠ .executeRelay) :
    Inv T wallet (s.addTask task) where
  own task' ht relay hrelay := by
    rcases List.mem_append.mp ht with ht | ht
    · exact h.own task' ht relay hrelay
    · obtain rfl := List.mem_singleton.mp ht
      rw [hrelay] at hkind
      exact absurd rfl hkind
  once := by
    rw [relayKeys_addTask, if_neg hkind, List.append_nil]
    exact h.once

/-- The relay of a message that is sent, when none is queued for its epoch. -/
lemma inv_addRelay {task : Task} {tx : L2ToL1Tx} (h : Inv T wallet s) (hsent : Sent T wallet tx)
    (hkind : task.Carries tx) (hfree : ¬s.Queued task.epoch .executeRelay) :
    Inv T wallet (s.addTask task) where
  own task' ht relay' hrelay' := by
    rcases List.mem_append.mp ht with ht | ht
    · exact h.own task' ht relay' hrelay'
    · obtain rfl := List.mem_singleton.mp ht
      obtain ⟨relay, hrelay, hcarries⟩ := hkind
      rw [hrelay] at hrelay'
      cases hrelay'
      exact ⟨tx, hsent, hcarries⟩
  once := by
    obtain ⟨relay, hrelay, -⟩ := hkind
    have hname : task.kind.name = .executeRelay := by rw [hrelay]; rfl
    rw [relayKeys_addTask, if_pos hname]
    refine h.once.append (List.nodup_singleton _) (List.disjoint_singleton.mpr ?_)
    rw [Task.key, hname, mem_relayKeys]
    exact hfree

lemma inv_finish {now : ℕ} {task : Task} {result : Except String Unit} (h : Inv T wallet s) :
    Inv T wallet (Dispatcher.finish now task result s) := by
  have hnote : ∀ {u : World} {o : Obs}, Inv T wallet u → Inv T wallet (u.note o) :=
    fun hu => hu.of_eq rfl
  unfold Dispatcher.finish
  split
  · exact inv_removeTask (hnote (hnote h))
  · split
    · exact inv_removeTask (hnote (inv_rescheduleTask (hnote h)))
    · exact hnote h

/-! ### The protocol -/

/-- The dispatcher queues no relay. -/
@[simps]
def protocol (T : Transactions) (wallet : Address) : Protocol Role World Panic Query.Answer where
  inv := Inv T wallet
  durable := Inv T wallet
  rely
    | .indexer, s, t => ∀ e, t.Queued e .executeRelay → s.Queued e .executeRelay
    | .dispatcher, _, _ => True
  guar
    | .indexer, _, _ => True
    | .dispatcher, s, t => ∀ e, t.Queued e .executeRelay → s.Queued e .executeRelay
  answer := Truthful T
  issue _ _ _ := True
  fault _ _ _ := True

lemma patient_indexer {J : World → Prop}
    (h : ∀ s t, J s → (∀ e, t.Queued e .executeRelay → s.Queued e .executeRelay) → J t) :
    Patient (protocol T wallet) .indexer J where
  rely s t hJ ht _ := h s t hJ ht
  issue _ _ _ _ _ := trivial
  fault _ _ _ _ _ := trivial

lemma patient_dispatcher : Patient (protocol T wallet) .dispatcher fun _ => True where
  rely _ _ _ _ _ := trivial
  issue _ _ _ _ _ := trivial
  fault _ _ _ _ _ := trivial

/-- A write of the indexer that keeps the queue as it is. -/
lemma keeps_modify {f : World → World} (hf : ∀ w, (f w).schedule.tasks = w.schedule.tasks) :
    Prog.Keeps (protocol T wallet) .indexer (fun _ => True) (Prog.modify f) := by
  intro s hs _
  have hI : Inv T wallet (f s) := Inv.of_eq hs (hf s)
  exact ⟨trivial, hI, hI, trivial⟩

/-- A handler of the outbox queues no relay. -/
lemma inv_write {event : Event} {t : World} (h : event.Write s t) (hI : Inv T wallet s) :
    Inv T wallet t := by
  cases h with
  | store e claimer root ts hnew hnone => exact hI.of_eq rfl
  | update hf => exact hI.of_eq rfl
  | clear _ ks => exact inv_invalidateTasks ks hI
  | queue _ n hsettled =>
    refine inv_addTask hI ?_
    cases event <;> simp [Event.taskKind, TaskKind.name]

lemma keeps_handle (target : ScanTarget) (log : Log) :
    Prog.Keeps (protocol T route.walletAddress) .indexer (fun _ => True)
      (Indexer.handle route target log) := by
  refine Prog.Keeps.bind (fun s hI _ => ?_) fun _ => keeps_modify fun _ => rfl
  have hp : Patient (protocol T route.walletAddress) .indexer fun _ => True :=
    patient_indexer fun _ _ _ _ => trivial
  refine Prog.wp_mono (fun _ t ht => ⟨ht, trivial⟩)
    (?_ : Prog.wp (protocol T route.walletAddress) .indexer _
      (fun _ => Inv T route.walletAddress) s)
  cases target with
  | outbox =>
    refine Indexer.wp_dispatchOutboxEvent hp hI trivial (fun _ => hI) fun event _ => ?_
    have hact : Prog.Keeps (protocol T route.walletAddress) .indexer (fun _ => True)
        (Indexer.act route log event) :=
      (confined_act log event).keeps hp (fun t u hIt _ hw =>
        have hIu : Inv T route.walletAddress u := inv_write hw hIt
        ⟨trivial, hIu, hIu, trivial⟩) fun _ _ _ _ _ => trivial
    exact Prog.wp_mono (fun _ t ht => ht.1) (hact s hI trivial)
  | inbox =>
    -- no relay is queued while the handler fetches the message
    have hq : Patient (protocol T route.walletAddress) .indexer fun t =>
        ∀ e, t.Queued e .executeRelay → s.Queued e .executeRelay :=
      patient_indexer fun t u h hu e hq => h e (hu e hq)
    refine Indexer.wp_dispatchInboxEvent (fun _ => hI) (fun _ => ?_) fun _ => ?_
    · refine Indexer.wp_handleSnapshotSent_carries hq hI (fun _ h => h) (fun t hIt _ _ => hIt) ?_
      rintro e task tx t _ hfree ⟨txHash, t', receipt, u, -, hsigner, hreceipt, htx⟩ he hkind hIt ht
      have hsent : Sent T route.walletAddress tx :=
        ⟨txHash, receipt, hsigner, hreceipt, Indexer.firstL2ToL1Tx_eq_some.mp htx⟩
      have hadded := inv_addRelay hIt hsent hkind fun hq => hfree (ht e (he ▸ hq))
      exact ⟨trivial, hadded, hadded⟩
    · refine Indexer.wp_handleSnapshotSaved hp hI trivial hI fun n => ?_
      have hsaved : Inv T route.walletAddress (s.setLastSavedCount n) := hI.of_eq rfl
      exact ⟨trivial, hsaved, hsaved⟩

lemma keeps_indexer (n : ℕ) : Prog.Keeps (protocol T route.walletAddress) .indexer (fun _ => True) (do
    Indexer.initializeIndexer route
    Indexer.run route n) := by
  have hp : Patient (protocol T route.walletAddress) .indexer fun _ => True :=
    patient_indexer fun _ _ _ _ => trivial
  refine Prog.Keeps.bind (fun s hI _ => ?_) fun _ s hI _ => ?_
  · refine Indexer.wp_initializeIndexer hp (B := fun _ _ => True) ⟨trivial, hI.of_eq rfl⟩
      (hI.of_eq rfl) trivial (fun _ _ _ _ _ => trivial) (fun _ _ _ _ _ _ => trivial)
      (fun _ _ t ht _ => ⟨ht, trivial⟩) fun now t _ ht _ => ?_
    have hfind : ∀ provider since, Prog.Keeps (protocol T route.walletAddress) .indexer
        (fun _ => True) (findBlockByTimestamp provider since) :=
      fun provider since => hp.keeps (quiet_findBlockByTimestamp provider since)
    have hsync : ∀ since a b, Prog.Keeps (protocol T route.walletAddress) .indexer (fun _ => True)
        (TaskStore.initializeSync since a b) := fun since a b => keeps_modify fun _ => rfl
    exact ((hfind .inbox _).bind fun a => (hfind .outbox _).bind fun b => hsync _ a b) t ht trivial
  · have hcatchup : ∀ target g, Prog.Keeps (protocol T route.walletAddress) .indexer (fun _ => True)
        (Indexer.modifyCatchup target g) := fun target g => keeps_modify fun w => by
      rw [World.schedule_setCatchup]
    have hset : Prog.Keeps (protocol T route.walletAddress) .indexer (fun _ => True)
        (TaskStore.setOnSync true) := keeps_modify fun _ => rfl
    exact Indexer.wp_run hp (fun target => Indexer.keeps_scanChain hp (fun _ _ _ => trivial)
      (hcatchup target) (fun a b logs => keeps_modify fun w => World.tasks_updateBlock w target a b logs)
      (keeps_handle target)) hset n hI trivial

/-! ### The dispatcher -/

lemma clerk : Dispatcher.Clerk (protocol T wallet) .dispatcher where
  note _ _ _ h := ⟨fun _ hq => hq, Inv.of_eq h rfl⟩
  reschedule _ _ _ h :=
    ⟨fun _ hq => (World.queued_rescheduleTask _ _ _ _ _).mp hq, inv_rescheduleTask h⟩
  remove _ _ h := ⟨fun _ hq => ((World.queued_removeTask _ _ _ _).mp hq).1, inv_removeTask h⟩

lemma executor (task : Task) : Dispatcher.Executor (protocol T wallet) .dispatcher (fun _ => True)
    route task (fun _ => True) fun _ _ => True :=
  Dispatcher.Executor.free patient_dispatcher (fun _ _ => trivial)
    (fun _ => { patient_dispatcher with
      none := fun _ _ _ _ => trivial
      many := fun _ _ _ => trivial }) (fun _ => trivial) fun _ => trivial

lemma verdict_ne_executeRelay (claimed root : Word) :
    (Dispatcher.verdict claimed root).name ≠ .executeRelay := by
  rcases Dispatcher.verdict_eq claimed root with h | h
  · simp [h, TaskKind.name]
  · simp [h, TaskKind.name]

lemma wp_processTask {now : ℕ} {task : Task} (hI : Inv T wallet s) :
    (Dispatcher.processTask route now task).wp (protocol T wallet) .dispatcher
      (fun _ => Inv T wallet) s := by
  refine Dispatcher.wp_processTask clerk hI (Dispatcher.wp_body (executor task) (hI.of_eq rfl)
    trivial (fun result t hIt _ _ => ⟨hIt, inv_finish hIt⟩)
    (fun _ claimed root n t hIt _ _ _ => ?_) fun _ t hIt _ => ?_)
  · have hadded : Inv T wallet (t.addTask ⟨task.epoch, n, Dispatcher.verdict claimed root⟩) :=
      inv_addTask hIt (verdict_ne_executeRelay claimed root)
    refine ⟨fun e hq => ?_, hadded, hadded, inv_finish hadded⟩
    rcases (World.queued_addTask _ _ _ _).mp hq with hq | ⟨-, hname⟩
    · exact hq
    · exact absurd hname.symm (verdict_ne_executeRelay claimed root)
  · have hremoved : Inv T wallet (t.removeClaim task.epoch) := hIt.of_eq rfl
    exact ⟨fun _ hq => hq, hremoved, hremoved, inv_finish hremoved⟩

/-! ### The runs -/

/-- The route initialises and scans, makes passes, and is started again after any crash; its nodes
may answer what they like, but the truth of a transaction. -/
def system (route : Route) (T : Transactions) : System Role World Panic Query.Answer :=
  scanSystem route (Indexer.initializeIndexer route) Empty (Truthful T) Restarted

theorem covers (route : Route) (T : Transactions) :
    (protocol T route.walletAddress).Covers (system route T) where
  rely_refl i s := by
    cases i with
    | indexer => exact fun _ h => h
    | dispatcher => trivial
  rely_trans i s t u h h' := by
    cases i with
    | indexer => exact fun e hq => h e (h' e hq)
    | dispatcher => trivial
  guar_rely := Role.guar_rely (fun _ _ _ => trivial) fun _ _ h => h
  answer _ _ _ _ h := h
  env s t hst hs := by
    obtain ⟨-, heq⟩ := hst
    have htasks : t.schedule.tasks = s.schedule.tasks := by rw [heq]
    refine ⟨Inv.of_eq hs htasks, fun i => ?_⟩
    cases i with
    | indexer =>
      intro e hq
      rw [World.Queued, htasks] at hq
      exact hq
    | dispatcher => trivial
  init s hs := by
    refine ⟨fun task ht => ?_, ?_⟩
    · rw [hs.1] at ht
      cases ht
    · rw [relayKeys, hs.1]
      exact List.nodup_nil
  boot i p s t hp _ _ hs := by
    cases i with
    | indexer =>
      obtain ⟨n, rfl⟩ := hp
      exact Prog.wp_mono (fun _ u hu => hu.1) (keeps_indexer n t hs trivial)
    | dispatcher =>
      obtain ⟨n, rfl⟩ := hp
      refine Dispatcher.wp_run (L := fun _ _ => True) patient_dispatcher (fun _ _ => trivial)
        (fun _ _ _ _ _ _ => trivial) (fun _ _ _ _ => trivial) (fun now task l u hu _ => ?_) n hs
      exact Prog.wp_mono (fun _ v hv => ⟨hv, trivial⟩) (wp_processTask hu)
  durable _ h := h
  restart s t hs hst := by
    obtain ⟨onSync, rfl⟩ := hst
    exact Inv.of_eq hs rfl

/-- At most one of the tasks is a relay of epoch `e`. -/
lemma Inv.length_le (h : Inv T wallet w) (e : ℕ) : (w.schedule.tasks.filter fun task =>
    task.epoch = e ∧ task.kind.name = .executeRelay).length ≤ 1 := by
  have hcount := List.nodup_iff_count_le_one.mp h.once (e, .executeRelay)
  rw [relayKeys, List.count_filter (by simp), List.count, List.countP_map,
    List.countP_eq_length_filter] at hcount
  have hkey : ∀ task : Task, decide (task.epoch = e ∧ task.kind.name = .executeRelay) =
      ((fun key => key == (e, KindName.executeRelay)) ∘ Task.key) task := fun task => by
    rw [Bool.eq_iff_iff]
    simp [Task.key]
  rw [List.filter_congr fun task _ => hkey task]
  exact hcount

/-- **Foreign snapshots have no influence.** From any sequence of handled logs and store operations
any foreign `SnapshotSent` logs can be deleted: the run ends in the same way, with the same tasks and
the same claims. And in every state of every run of the route every queued relay is the first message
of a transaction the wallet has signed, and each epoch has at most one. -/
theorem foreign_without_influence (route : Route) :
    (∀ ops ops' w, Without (Foreign route.walletAddress) ops ops' →
      (evals Op.answers (Op.run route) ops w).1 = (evals Op.answers (Op.run route) ops' w).1 ∧
      (evals Op.answers (Op.run route) ops w).2.schedule.tasks =
        (evals Op.answers (Op.run route) ops' w).2.schedule.tasks ∧
      (evals Op.answers (Op.run route) ops w).2.claims =
        (evals Op.answers (Op.run route) ops' w).2.claims) ∧
    ∀ T c, (system route T).Reachable c →
      (∀ task ∈ c.store.schedule.tasks, ∀ relay, task.kind = .executeRelay relay →
        ∃ txHash receipt tx, T.signer txHash = some route.walletAddress ∧
          T.receipt txHash = some receipt ∧ Indexer.FirstMessage receipt.logs tx ∧
          relay.Carries tx) ∧
      ∀ e, (c.store.schedule.tasks.filter fun task =>
        task.epoch = e ∧ task.kind.name = .executeRelay).length ≤ 1 := by
  refine ⟨fun ops ops' w h => ?_, fun T c hc => ?_⟩
  · obtain ⟨hr, hfiles⟩ := evals_without_foreign h w
    exact ⟨hr, congrArg (fun x => x.1.tasks) hfiles, congrArg Prod.snd hfiles⟩
  · have hI : Inv T route.walletAddress c.store := ((covers route T).reachable hc).inv
    refine ⟨fun task ht relay hrelay => ?_, hI.length_le⟩
    obtain ⟨tx, ⟨txHash, receipt, hsigner, hreceipt, htx⟩, hcarries⟩ := hI.own task ht relay hrelay
    exact ⟨txHash, receipt, tx, hsigner, hreceipt, htx, hcarries⟩

/-! ### A foreign snapshot before the own one -/

/-- A transaction of the wallet, with one message, and one of somebody else. -/
def sampleTransactions : Transactions where
  signer txHash := some (if txHash = 7 then 3 else 4)
  receipt _ := some ⟨some 30, [⟨Indexer.arbSys, some ⟨5, 6, 0, 1, 20, 10, 300, 0, [1, 2]⟩⟩]⟩

def sent (e : ℕ) (txHash : Word) : Log :=
  { Sample.log [sigSnapshotSent, BitVec.ofNat 256 e] 0 30 with transactionHash := some txHash }

def sampleRoute : Route := { Sample.route with settings := ⟨10, 0, 20, 2000⟩ }

/-- The nodes of a chain with both snapshots. -/
def sampleNode : (q : Query) → q.Answer
  | .sleep _ => .ok ()
  | .blockNumber _ => .ok 500
  | .blockByNumber _ (.number n) => .ok (some ⟨n, 10 * n⟩)
  | .blockByNumber _ _ => .ok (some ⟨500, 5000⟩)
  | .logs .inbox _ => .ok [sent 5 8, sent 5 7]
  | .logs _ _ => .ok []
  | .transactionByHash txHash => .ok (sampleTransactions.signer txHash)
  | .transactionReceipt txHash => .ok (sampleTransactions.receipt txHash)
  | _ => .error "connection refused"

def scanned : Config Role World Panic Query.Answer :=
  Config.play (A := Query.Answer) {
    store := {}
    thread
      | .indexer => Indexer.initializeIndexer sampleRoute >>= fun _ => Indexer.run sampleRoute 1
      | .dispatcher => Dispatcher.run sampleRoute 0 } (Sample.times 40 .indexer sampleNode)

lemma truthful_sampleNode (i : Role) (q : Query) (w : World) :
    Truthful sampleTransactions i q (sampleNode q) w := by
  cases i with
  | dispatcher => cases q <;> trivial
  | indexer =>
    cases q with
    | transactionByHash txHash => exact rfl
    | transactionReceipt txHash => exact rfl
    | _ => trivial

lemma reachable_scanned : (system sampleRoute sampleTransactions).Reachable scanned := by
  refine System.reachable_play Sample.mem_roles (fun x hx q w => ?_) (.init ⟨rfl, rfl, rfl⟩ ?_)
    (by decide +kernel)
  · rw [List.eq_of_mem_replicate hx]
    exact truthful_sampleNode _ q w
  · rintro (_ | _)
    · exact ⟨1, rfl⟩
    · exact ⟨0, rfl⟩

/-- Somebody else's snapshot, the own one, and the other once more. -/
def sampleOps : List Op :=
  [.handle .inbox (sent 5 8) sampleNode, .handle .inbox (sent 5 7) sampleNode,
    .handle .inbox (sent 5 8) sampleNode]

lemma foreign_sample : Foreign sampleRoute.walletAddress (.handle .inbox (sent 5 8) sampleNode) := by
  refine ⟨rfl, fun topic htopic => ?_, fun txHash hhash => ?_⟩
  · cases htopic
    decide
  · cases hhash
    exact ⟨4, rfl, by decide⟩

theorem foreign_without_influence_sample :
    ((evals Op.answers (Op.run sampleRoute) sampleOps {}).2.schedule.tasks =
      (evals Op.answers (Op.run sampleRoute) [.handle .inbox (sent 5 7) sampleNode]
        {}).2.schedule.tasks ∧
    ∃ task ∈ scanned.store.schedule.tasks, ∃ relay, task.kind = .executeRelay relay ∧
      ∃ txHash receipt tx, sampleTransactions.signer txHash = some sampleRoute.walletAddress ∧
        sampleTransactions.receipt txHash = some receipt ∧
        Indexer.FirstMessage receipt.logs tx ∧ relay.Carries tx) := by
  have hruns := (foreign_without_influence sampleRoute).1 sampleOps
    [.handle .inbox (sent 5 7) sampleNode] {}
    (.drop foreign_sample (.keep _ (.drop foreign_sample .nil)))
  have htasks : scanned.store.schedule.tasks =
      [⟨5, 310, .executeRelay ⟨1, 5, 6, 20, 10, 300, 0, [1, 2]⟩⟩] := by decide +kernel
  have hmem : (⟨5, 310, .executeRelay ⟨1, 5, 6, 20, 10, 300, 0, [1, 2]⟩⟩ : Task) ∈
      scanned.store.schedule.tasks := by
    rw [htasks]
    exact List.mem_singleton_self _
  have hrelay := ((foreign_without_influence sampleRoute).2 sampleTransactions scanned
    reachable_scanned).1 _ hmem _ rfl
  exact ⟨hruns.2.1, _, hmem, _, rfl, hrelay⟩

end Filtering

end VeaValidator
