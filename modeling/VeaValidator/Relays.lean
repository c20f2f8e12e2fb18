import VeaValidator.Filtering
import VeaValidator.Gate

/-!
How long a relay waits.

`fetch_l2_to_l1_from_tx` sets the task of a relay to the time of the block of its message and the
delay of the route, and a pass takes the tasks that are due by the clock of its block. In between
a relay may be put off or taken from the queue, and others may be queued for its epoch. No relay is
sent before its own time for all that.

`reschedule_task` goes by the key of the task and may set another relay of the epoch to an earlier
time; the removal that follows takes it from the queue. Only a stop between these two writes would
leave it there.
-/

namespace VeaValidator

open Coop

namespace Relays

/-- The transactions of the inbox's chain, and the times of the blocks of the two chains. -/
structure Chains extends Filtering.Transactions where
  inboxTime : ℕ → ℕ
  outboxTime : ℕ → ℕ

/-- The times the nodes give are so, and the outbox's node knows no block beyond the head. -/
def Timed (N : Chains) : Role → (q : Query) → q.Answer → World → Prop
  | .indexer, .blockByNumber .inbox (.number n), .ok (some block), _ =>
    block.timestamp = N.inboxTime n
  | .dispatcher, .blockByNumber .outbox .latest, .ok (some block), w =>
    block.number ≤ w.heads.outbox ∧ block.timestamp = N.outboxTime block.number
  | _, _, _, _ => True

def Honest (N : Chains) (i : Role) (q : Query) (a : q.Answer) (w : World) : Prop :=
  Filtering.Truthful N.toTransactions i q a w ∧ Timed N i q a w

/-- The message of the relay is in block `n` of the inbox's chain, in a transaction of the wallet. -/
def Sent (N : Chains) (route : Route) (relay : Relay) (n : ℕ) : Prop :=
  ∃ txHash receipt tx, N.signer txHash = some route.walletAddress ∧
    N.receipt txHash = some receipt ∧ Indexer.FirstMessage receipt.logs tx ∧
    relay.Carries tx ∧ receipt.blockNumber = some n

/-- The relay has the message of a transaction of the wallet, and its time is `base`. -/
def Message (N : Chains) (route : Route) (relay : Relay) (base : ℕ) : Prop :=
  ∃ n, Sent N route relay n ∧ base = u64 (N.inboxTime n + route.settings.relayDelaySecs)

/-- The outbox's chain has a block of that time. -/
def Reached (N : Chains) (base : ℕ) (w : World) : Prop :=
  ∃ m ≤ w.heads.outbox, base ≤ N.outboxTime m

/-- The time of the relay has come. -/
def Due (N : Chains) (route : Route) (relay : Relay) (w : World) : Prop :=
  ∃ base, Message N route relay base ∧ Reached N base w

/-- Every queued relay waits for its time, or its time has come. -/
def Waiting (N : Chains) (route : Route) (w : World) : Prop :=
  ∀ task ∈ w.schedule.tasks, ∀ relay, task.kind = .executeRelay relay →
    ∃ base, Message N route relay base ∧ (base ≤ task.executeAfter ∨ Reached N base w)

/-- The last thing done was not to put a task off that has yet to be removed. -/
def Tidy (w : World) : Prop :=
  ∀ o l, w.log = o :: l → (∀ task n, o ≠ .rescheduling task n) ∧
    ∀ task, o = .completed task → ¬w.Queued task.epoch task.kind.name

structure Inv (N : Chains) (route : Route) (w : World) : Prop where
  waiting : Waiting N route w
  tidy : Tidy w

/-- The relays of the tasks are due. -/
def Ready (N : Chains) (route : Route) (l : List Task) (w : World) : Prop :=
  ∀ task ∈ l, ∀ relay, task.kind = .executeRelay relay → Due N route relay w

variable {N : Chains} {route : Route} {s t w : World} {l : List Task} {task : Task} {relay : Relay}
  {base : ℕ}

lemma Reached.mono (h : Reached N base s) (hhead : s.heads.outbox ≤ t.heads.outbox) :
    Reached N base t := by
  obtain ⟨m, hm, hbase⟩ := h
  exact ⟨m, hm.trans hhead, hbase⟩

lemma Due.mono (h : Due N route relay s) (hhead : s.heads.outbox ≤ t.heads.outbox) :
    Due N route relay t := by
  obtain ⟨base, hmessage, hreached⟩ := h
  exact ⟨base, hmessage, hreached.mono hhead⟩

lemma Ready.mono (h : Ready N route l s) (hhead : s.heads.outbox ≤ t.heads.outbox) :
    Ready N route l t := fun task ht relay hrelay => (h task ht relay hrelay).mono hhead

/-- A queue that has lost relays, or got other tasks. -/
lemma Waiting.mono (h : Waiting N route s)
    (htasks : ∀ task ∈ t.schedule.tasks, task.kind.name = .executeRelay → task ∈ s.schedule.tasks)
    (hhead : s.heads.outbox ≤ t.heads.outbox) : Waiting N route t := by
  intro task ht relay hrelay
  obtain ⟨base, hmessage, hor⟩ := h task (htasks task ht (by rw [hrelay]; rfl)) relay hrelay
  exact ⟨base, hmessage, hor.imp id fun hreached => hreached.mono hhead⟩

/-- A relay that is set to its time. -/
lemma waiting_addRelay (h : Waiting N route s)
    (hmessage : ∀ relay, task.kind = .executeRelay relay →
      Message N route relay task.executeAfter) : Waiting N route (s.addTask task) := by
  intro task' ht relay hrelay
  rcases List.mem_append.mp ht with ht | ht
  · exact h task' ht relay hrelay
  · obtain rfl := List.mem_singleton.mp ht
    exact ⟨_, hmessage relay hrelay, .inl (le_refl _)⟩

/-- The tasks of a pass are due by the clock of its block. -/
lemma ready_filter {block : Header} (h : Waiting N route s)
    (hhead : s.heads.outbox ≤ t.heads.outbox) (hnumber : block.number ≤ t.heads.outbox)
    (htime : block.timestamp = N.outboxTime block.number) :
    Ready N route (s.schedule.tasks.filter fun task => block.timestamp ≥ task.executeAfter) t := by
  intro task ht relay hrelay
  obtain ⟨ht, hafter⟩ := List.mem_filter.mp ht
  have hafter : task.executeAfter ≤ N.outboxTime block.number := by
    rw [← htime]
    exact of_decide_eq_true hafter
  obtain ⟨base, hmessage, hbase | hreached⟩ := h task ht relay hrelay
  · exact ⟨base, hmessage, block.number, hnumber, hbase.trans hafter⟩
  · exact ⟨base, hmessage, hreached.mono hhead⟩

/-! ### Tidiness -/

lemma Tidy.of_log (h : Tidy s) (hlog : t.log = s.log)
    (hqueued : ∀ e k, t.Queued e k → s.Queued e k) : Tidy t := by
  intro o l ho
  rw [hlog] at ho
  obtain ⟨hput, hdone⟩ := h o l ho
  exact ⟨hput, fun task htask hq => hdone task htask (hqueued _ _ hq)⟩

/-- The line does not put a task off, and does not end one. -/
def Aloof : Obs → Prop
  | .rescheduling _ _ | .completed _ => False
  | _ => True

/-- Such a line leaves nothing untidy. -/
lemma tidy_of_line {o : Obs} {rest : List Obs} (hlog : t.log = o :: rest) (ho : Aloof o) : Tidy t := by
  intro o' l ho'
  rw [hlog] at ho'
  obtain ⟨rfl, rfl⟩ := List.cons.inj ho'
  refine ⟨fun task n heq => ?_, fun task heq => ?_⟩
  · rw [heq] at ho
    exact ho.elim
  · rw [heq] at ho
    exact ho.elim

lemma tidy_removeTask : Tidy ((w.note (.completed task)).removeTask task) := by
  intro o l ho
  obtain ⟨rfl, -⟩ := List.cons.inj ho
  refine ⟨fun task' n heq => ?_, fun task' htask hq => ?_⟩
  · cases heq
  · obtain rfl : task = task' := Obs.completed.inj htask
    exact ((World.queued_removeTask _ _ _ _).mp hq).2 ⟨rfl, rfl⟩

/-- What is tidy after the line of a completed task has no such task. -/
lemma waiting_of_tidy (h : Waiting N route (w.removeTask task))
    (htidy : Tidy (w.note (.completed task))) : Waiting N route (w.note (.completed task)) := by
  have hfree : ¬w.Queued task.epoch task.kind.name := (htidy _ _ rfl).2 task rfl
  refine h.mono (fun task' ht _ => List.mem_filter.mpr ⟨ht, decide_eq_true fun hkey => hfree ?_⟩)
    (le_refl _)
  rw [← (Prod.mk.inj hkey).1, ← (Prod.mk.inj hkey).2]
  exact World.queued_of_mem ht

/-! ### The writes of the indexer -/

/-- A write that queues no relay, and leaves the files tidy if they were. -/
structure Calm (s t : World) : Prop where
  tasks : ∀ task ∈ t.schedule.tasks, task.kind.name = .executeRelay → task ∈ s.schedule.tasks
  heads : t.heads = s.heads
  tidy : Tidy s → Tidy t

lemma Inv.of_calm (h : Inv N route s) (hcalm : Calm s t) : Inv N route t :=
  ⟨h.waiting.mono hcalm.tasks (le_of_eq (by rw [hcalm.heads])), hcalm.tidy h.tidy⟩

/-- A write that leaves the queue and the log. -/
lemma calm_of_eq (htasks : t.schedule.tasks = s.schedule.tasks) (hheads : t.heads = s.heads)
    (hlog : t.log = s.log) : Calm s t where
  tasks _ ht _ := htasks ▸ ht
  heads := hheads
  tidy h := h.of_log hlog fun e k hq => by
    rw [World.Queued, htasks] at hq
    exact hq

/-- A line about something else, with the queue left as it is. -/
lemma calm_of_line {o : Obs} (htasks : t.schedule.tasks = s.schedule.tasks)
    (hheads : t.heads = s.heads) (hlog : t.log = o :: s.log) (ho : Aloof o) : Calm s t where
  tasks _ ht _ := htasks ▸ ht
  heads := hheads
  tidy _ := tidy_of_line hlog ho

lemma Inv.note {o : Obs} (h : Inv N route s) (ho : Aloof o) : Inv N route (s.note o) :=
  h.of_calm (calm_of_line rfl rfl rfl ho)

lemma calm_addTask (hkind : task.kind.name ≠ .executeRelay) : Calm s (s.addTask task) where
  tasks _ ht hname := by
    rcases List.mem_append.mp ht with ht | ht
    · exact ht
    · obtain rfl := List.mem_singleton.mp ht
      exact absurd hname hkind
  heads := rfl
  tidy _ := tidy_of_line rfl trivial

/-- A handler of the outbox queues no relay. -/
lemma calm_write {event : Event} (h : event.Write s t) : Calm s t := by
  cases h with
  | store e claimer root ts hnew hnone => exact calm_of_eq rfl rfl rfl
  | update hf => exact calm_of_eq rfl rfl rfl
  | clear _ ks =>
    refine ⟨fun task ht _ => List.mem_of_mem_filter ht, rfl, fun h => ?_⟩
    have hor : (s.invalidateTasks event.epoch ks).log = s.log ∨ ∃ n,
        (s.invalidateTasks event.epoch ks).log = .invalidated event.epoch n :: s.log := by
      unfold World.invalidateTasks
      dsimp only
      split
      · exact .inr ⟨_, rfl⟩
      · exact .inl rfl
    rcases hor with hlog | ⟨n, hlog⟩
    · exact h.of_log hlog fun e k hq => ((s.queued_invalidateTasks _ _ k ks).mp hq).1
    · exact tidy_of_line hlog trivial
  | queue _ n hsettled =>
    refine calm_addTask ?_
    cases event <;> simp [Event.taskKind, TaskKind.name]

/-! ### The protocol -/

@[simps]
def protocol (N : Chains) (route : Route) : Protocol Role World Panic Query.Answer where
  inv := Inv N route
  durable w := Tidy w → Waiting N route w
  rely _ s t := s.heads.outbox ≤ t.heads.outbox
  guar _ s t := s.heads.outbox ≤ t.heads.outbox
  answer := Honest N
  issue _ q w := ∀ proof relay, q = .send (.executeTransaction proof relay) → Due N route relay w
  fault _ _ _ := True

variable {i : Role}

lemma patient {J : World → Prop} (h : ∀ s t, J s → s.heads.outbox ≤ t.heads.outbox → J t) :
    Patient (protocol N route) i J where
  rely s t hJ ht _ := h s t hJ ht
  issue q s hq _ _ proof relay heq := by
    subst heq
    exact hq.elim
  fault _ _ _ _ _ := trivial

lemma keeps_modify {f : World → World} (hf : ∀ w, Calm w (f w)) :
    Prog.Keeps (protocol N route) i (fun _ => True) (Prog.modify f) := by
  intro s hs _
  have hI : Inv N route (f s) := hs.of_calm (hf s)
  exact ⟨le_of_eq (by rw [(hf s).heads]), fun _ => hI.waiting, hI, trivial⟩

lemma keeps_handle (target : ScanTarget) (log : Log) :
    Prog.Keeps (protocol N route) .indexer (fun _ => True) (Indexer.handle route target log) := by
  refine Prog.Keeps.bind (fun s hI _ => ?_) fun _ => keeps_modify fun _ =>
    calm_of_line rfl rfl rfl trivial
  have hp : Patient (protocol N route) .indexer fun _ => True := patient fun _ _ _ _ => trivial
  refine Prog.wp_mono (fun _ t ht => ⟨ht, trivial⟩)
    (?_ : Prog.wp (protocol N route) .indexer _ (fun _ => Inv N route) s)
  cases target with
  | outbox =>
    refine Indexer.wp_dispatchOutboxEvent hp hI trivial (fun _ => hI) fun event _ => ?_
    have hact : Prog.Keeps (protocol N route) .indexer (fun _ => True)
        (Indexer.act route log event) :=
      (confined_act log event).keeps hp (fun t u hIt _ hw =>
        have hcalm := calm_write hw
        have hIu : Inv N route u := hIt.of_calm hcalm
        ⟨le_of_eq (by rw [hcalm.heads]), fun _ => hIu.waiting, hIu, trivial⟩)
        fun _ _ _ _ _ => trivial
    exact Prog.wp_mono (fun _ t ht => ht.1) (hact s hI trivial)
  | inbox =>
    refine Indexer.wp_dispatchInboxEvent (fun _ => hI) (fun _ => ?_) fun _ => ?_
    · refine Indexer.wp_handleSnapshotSent_timed hp hI trivial (fun t hIt _ _ => hIt) ?_
      rintro e task tx receipt t - - ⟨txHash, v, v', -, hsigner, hreceipt⟩ htx rfl
        ⟨relay, hrelay, hcarries⟩ ⟨n, block, v'', hn, hblock, hafter⟩ hIt -
      have hadded : Inv N route (t.addTask task) := by
        refine ⟨waiting_addRelay hIt.waiting fun relay' hrelay' => ?_, tidy_of_line rfl trivial⟩
        rw [hrelay] at hrelay'
        cases hrelay'
        have hfirst : Indexer.FirstMessage receipt.logs tx := Indexer.firstL2ToL1Tx_eq_some.mp htx
        refine ⟨n, ⟨txHash, receipt, tx, hsigner.1, hreceipt.1, hfirst, hcarries, hn⟩, ?_⟩
        rw [hafter, hblock.2]
      exact ⟨le_refl _, fun _ => hadded.waiting, hadded⟩
    · refine Indexer.wp_handleSnapshotSaved hp hI trivial hI fun n => ?_
      have hsaved : Inv N route (s.setLastSavedCount n) := hI.of_calm (calm_of_eq rfl rfl rfl)
      exact ⟨le_refl _, fun _ => hsaved.waiting, hsaved⟩

lemma keeps_indexer (n : ℕ) : Prog.Keeps (protocol N route) .indexer (fun _ => True) (do
    Indexer.initializeIndexer route
    Indexer.run route n) := by
  have hp : Patient (protocol N route) .indexer fun _ => True := patient fun _ _ _ _ => trivial
  have hset : ∀ b, Prog.Keeps (protocol N route) .indexer (fun _ => True) (TaskStore.setOnSync b) :=
    fun b => keeps_modify fun _ => calm_of_eq rfl rfl rfl
  refine Prog.Keeps.bind (Indexer.keeps_initializeIndexer hp (hset false)
    fun _ _ _ => keeps_modify fun _ => calm_of_line rfl rfl rfl trivial) fun _ => ?_
  refine Indexer.keeps_run hp (fun _ _ _ _ => trivial) (fun target f => keeps_modify fun w => ?_)
    (fun target a b logs => keeps_modify fun w => ?_) (hset true) keeps_handle n
  · exact calm_of_eq (by rw [World.schedule_setCatchup]) (by rw [World.heads_setCatchup])
      (by rw [World.log_setCatchup])
  · refine calm_of_line (o := .scanned target a b logs) ?_ ?_ rfl trivial
    · cases target <;> rfl
    · cases target <;> rfl

/-! ### The dispatcher -/

/-- The body of a task sends its relay when the time of the relay has come. -/
lemma keeps_body {now : ℕ} : Prog.Keeps (protocol N route) .dispatcher (Ready N route (task :: l))
    (Dispatcher.body route task now).run := by
  have hreads : Reads (protocol N route) .dispatcher (Ready N route (task :: l)) task.epoch :=
    { patient fun _ _ hJ hhead => Ready.mono hJ hhead with
      none := fun _ _ _ _ => trivial
      many := fun _ _ _ => trivial }
  refine Gate.keeps_body hreads (fun _ _ _ => trivial) (fun _ _ _ => trivial) ?_ ?_ ?_
  · intro tx u hsent _ hu proof relay heq
    obtain rfl : tx = .executeTransaction proof relay := Query.send.inj heq
    exact hu task List.mem_cons_self relay hsent
  · intro n kind hkind u hIu hu
    have hname : kind.name ≠ .executeRelay := by
      rcases hkind with rfl | rfl <;> simp [TaskKind.name]
    have hIu' : Inv N route (u.addTask ⟨task.epoch, n, kind⟩) := hIu.of_calm (calm_addTask hname)
    exact ⟨le_refl _, fun _ => hIu'.waiting, hIu', hu.mono (le_refl _)⟩
  · intro u hIu hu
    have hIu' : Inv N route (u.removeClaim task.epoch) := hIu.of_calm (calm_of_eq rfl rfl rfl)
    exact ⟨le_refl _, fun _ => hIu'.waiting, hIu', hu.mono (le_refl _)⟩

/-- The last two writes of a turn, on a queue where only the tasks with the key of the turn's task
may have lost their time. -/
lemma wp_complete (h : Waiting N route (w.removeTask task)) (hready : Ready N route l w) :
    ((do
      info (.completed task)
      TaskStore.removeTask task) : M Unit).wp (protocol N route) .dispatcher
        (fun _ u => Inv N route u ∧ Ready N route l u) w := by
  rw [Prog.wp_bind, wp_info]
  refine ⟨le_refl _, waiting_of_tidy h, ?_⟩
  have hremoved : Waiting N route ((w.note (.completed task)).removeTask task) :=
    h.mono (fun _ ht _ => ht) (le_refl _)
  exact ⟨le_refl _, fun _ => hremoved, ⟨hremoved, tidy_removeTask⟩, hready.mono (le_refl _)⟩

lemma wp_processTask {now : ℕ} (hI : Inv N route s) (hready : Ready N route (task :: l) s) :
    (Dispatcher.processTask route now task).wp (protocol N route) .dispatcher
      (fun _ u => Inv N route u ∧ Ready N route l u) s := by
  rw [Dispatcher.processTask, Dispatcher.executeTask, Prog.wp_bind, wp_info]
  have hstart : Inv N route (s.note (.executing task)) := hI.note trivial
  refine ⟨le_refl _, fun _ => hstart.waiting, ?_⟩
  simp only [bind_assoc]
  rw [Prog.wp_bind]
  refine Prog.wp_mono ?_ (keeps_body _ hstart (hready.mono (le_refl _)))
  rintro result t ⟨hIt, ht⟩
  have hreturned : Inv N route (t.note (.returned task result)) := hIt.note trivial
  have hrest : Ready N route l (t.note (.returned task result)) :=
    fun task' ht' => ht.mono (le_refl _) task' (List.mem_cons_of_mem task ht')
  rw [Prog.wp_bind, wp_info]
  refine ⟨le_refl _, fun _ => hreturned.waiting, ?_⟩
  rcases result with e | ⟨⟩
  · rcases hdelay : Dispatcher.rescheduleDelay task.kind e with _ | delay
    · simp only [hdelay]
      exact ⟨hreturned, hrest⟩
    · simp only [hdelay]
      rw [bind_assoc, Prog.wp_bind, wp_rescheduleTask]
      refine ⟨le_refl _, fun htidy => ?_, wp_complete ?_ (hrest.mono (le_refl _))⟩
      · exact absurd rfl ((htidy _ _ rfl).1 _ _)
      · refine hreturned.waiting.mono (fun task' ht' _ => ?_) (le_refl _)
        -- what is put off is lost with its key
        have herase : ((t.rescheduleTask task (u64 (now + delay))).removeTask task).schedule.tasks =
            (t.removeTask task).schedule.tasks := Keyed.erase_update fun _ => rfl
        have hmem : task' ∈ (t.removeTask task).schedule.tasks := by
          rw [← herase]
          exact ht'
        exact List.mem_of_mem_filter hmem
  · exact wp_complete (hreturned.waiting.mono (fun _ ht' _ => List.mem_of_mem_filter ht')
      (le_refl _)) hrest

lemma wp_dispatcher (n : ℕ) (hI : Inv N route s) : (Dispatcher.run route n).wp (protocol N route)
    .dispatcher (fun _ => Inv N route) s := by
  have hp : Patient (protocol N route) .dispatcher fun _ => True := patient fun _ _ _ _ => trivial
  refine Dispatcher.wp_run_of_passes hp (fun u hIu => ?_) n hI
  refine Dispatcher.wp_processPending (L := fun _ => Ready N route) hp (fun block t hhead _ ha => ?_)
    (fun now task l v hIv hl => wp_processTask hIv hl) hIu
  exact ready_filter hIu.waiting hhead ha.2.1 ha.2.2

/-! ### The route -/

/-- The route is started again, but not while a task that was put off has yet to be removed. -/
def Resumed (s t : World) : Prop := Tidy s ∧ Restarted s t

theorem covers (route : Route) (N : Chains) :
    (protocol N route).Covers (scanSystem route (Indexer.initializeIndexer route) (Inv N route)
      (Honest N) Resumed) where
  rely_refl _ s := le_refl s.heads.outbox
  rely_trans _ _ _ _ h h' := Nat.le_trans h h'
  guar_rely _ _ _ _ _ h := h
  answer _ _ _ _ h := h
  env s t hst hs := by
    obtain ⟨hheads, heq⟩ := hst
    have htasks : t.schedule.tasks = s.schedule.tasks := by rw [heq]
    refine ⟨⟨hs.waiting.mono (fun task ht _ => htasks ▸ ht) (hheads .outbox), ?_⟩,
      fun _ => hheads .outbox⟩
    rw [heq]
    exact hs.tidy
  init _ hs := hs
  boot i p s t hp _ _ hs := by
    cases i with
    | indexer =>
      obtain ⟨n, rfl⟩ := hp
      exact Prog.wp_mono (fun _ u hu => hu.1) (keeps_indexer n t hs trivial)
    | dispatcher =>
      obtain ⟨n, rfl⟩ := hp
      exact wp_dispatcher n hs
  durable _ h _ := h.waiting
  restart s t hs hst := by
    obtain ⟨htidy, onSync, rfl⟩ := hst
    exact ⟨hs htidy, htidy⟩

lemma tolerates (route : Route) (N : Chains) : Main.Tolerates (protocol N route) where
  kept s line hI :=
    have hnote : Inv N route (s.note (.watch line)) := hI.note trivial
    ⟨fun _ => hnote.waiting, hnote⟩
  unseen _ s _ := le_refl s.heads.outbox
  patient := patient fun _ _ _ _ => trivial

/-- The dispatcher sends what is due. -/
lemma due_of_query {makeClaims : Bool} {c : Staged.Config Thread World Panic Query.Answer ℕ}
    (hc : (Main.routeSystem route makeClaims (Inv N route) (Honest N) Resumed).Reachable c)
    {th : Thread → M Unit} {proof : List Word} (hth : c.stage = .running th)
    (hq : (th (.inl .dispatcher)).query? = some (.send (.executeTransaction proof relay))) :
    Due N route relay c.store := by
  have hissue := Main.issue_of_covers (covers route N) (tolerates route N)
    (fun i q s t hs hst _ proof relay heq => (hs proof relay heq).mono hst) hc hth hq
  exact hissue proof relay rfl

/-- **No relay before its time.** In every run of a route, with any panics and retries, every queued
relay has the message of a transaction of the wallet and waits for the time of that transaction's
block and the delay of the route, unless the outbox's chain has reached that time; and while the
dispatcher waits for the execution of a relay, the outbox's chain has. The route may be stopped
wherever it waits, since the files are tidy then, and after all its writes but those that put a task
off. -/
theorem relays_wait (route : Route) (makeClaims : Bool) (N : Chains)
    {c : Staged.Config Thread World Panic Query.Answer ℕ}
    (hc : (Main.routeSystem route makeClaims (Inv N route) (Honest N) Resumed).Reachable c) :
    Tidy c.store ∧ Waiting N route c.store ∧
    ∀ th proof relay, c.stage = .running th →
      (th (.inl .dispatcher)).query? = some (.send (.executeTransaction proof relay)) →
      Due N route relay c.store := by
  have hI := (Main.invariant_of_covers (covers route N) (tolerates route N) hc).1
  exact ⟨hI.tidy, hI.waiting, fun _ _ _ hth hq => due_of_query hc hth hq⟩

/-! ### A relay that is executed -/

def sampleRoute : Route :=
  { Sample.route with
    sequencerInbox := some 8
    settings := ⟨550416, 90600, 600, 642216⟩ }

def sampleChains : Chains :=
  { Filtering.sampleTransactions with
    inboxTime := fun n => 10 * n
    outboxTime := fun n => 2000 * n }

/-- The nodes of the chains with both snapshots, more than a week after the own one. -/
def sampleNode : (q : Query) → q.Answer
  | .blockByNumber .outbox (.number n) => .ok (some ⟨n, 2000 * n⟩)
  | .blockByNumber .outbox _ => .ok (some ⟨500, 1000000⟩)
  | .epochPeriod => .ok 3600
  | .isSpent _ => .ok false
  | .sendMerkleTreeState => .ok 8
  | .constructOutboxProof _ _ => .ok ([1], 2)
  | .roots _ => .ok 3
  | q => Filtering.sampleNode q

def sampleHeads : Heads := ⟨500, 500, 500⟩

/-- The route after its initialisation, with a turn of the indexer and a pass to make. -/
def launched : Coop.Config Thread World Panic Query.Answer where
  store := ((Main.startRoute sampleRoute).eval sampleNode { heads := sampleHeads }).2
  thread
    | .inl .indexer => Indexer.run sampleRoute 1
    | .inl .dispatcher => Dispatcher.run sampleRoute 1
    | .inr () => EpochWatcher.watchEpochs sampleRoute true 3600 0 {}

def executing : Coop.Config Thread World Panic Query.Answer :=
  launched.play (List.replicate 30 (.inl .indexer, sampleNode) ++
    List.replicate 6 (.inl .dispatcher, sampleNode))

lemma honest_sampleNode {w : World} (hw : w.heads = sampleHeads) (i : Role) (q : Query) :
    Honest sampleChains i q (sampleNode q) w := by
  have htruthful : Filtering.Truthful sampleChains.toTransactions i q (sampleNode q) w := by
    cases i with
    | dispatcher => cases q <;> trivial
    | indexer =>
      cases q with
      | transactionByHash txHash => exact rfl
      | transactionReceipt txHash => exact rfl
      | _ => trivial
  refine ⟨htruthful, ?_⟩
  cases i with
  | indexer =>
    cases q with
    | blockByNumber p n => cases p <;> cases n <;> first | exact rfl | trivial
    | _ => trivial
  | dispatcher =>
    cases q with
    | blockByNumber p n =>
      have hhead : 500 ≤ w.heads.outbox := by
        rw [hw]
        exact le_refl 500
      cases p <;> cases n <;> first | exact ⟨hhead, rfl⟩ | trivial
    | _ => trivial

abbrev sampleSystem : Staged Thread World Panic Query.Answer ℕ :=
  Main.routeSystem sampleRoute true (Inv sampleChains sampleRoute)
    (Honest sampleChains) Resumed

lemma reachable_executing : sampleSystem.Reachable ⟨executing.store, .running executing.thread⟩ := by
  have hnode : ∀ (i : Thread) q (w : World), decide (w.heads = sampleHeads) = true →
      sampleSystem.answer i q (sampleNode q) w := by
    intro i q w hw
    rcases i with i | _
    · exact honest_sampleNode (of_decide_eq_true hw) i q
    · trivial
  have hinit : Inv sampleChains sampleRoute { heads := sampleHeads } := by
    refine ⟨fun task ht => ?_, fun o l ho => ?_⟩
    · cases ht
    · cases ho
  have hlaunch : sampleSystem.Reachable ⟨launched.store, .running launched.thread⟩ := by
    refine Staged.reachable_launch (o := sampleNode) (b := 3600)
      (v := fun w => decide (w.heads = sampleHeads)) (hnode (.inl .indexer)) (fun i => ?_)
      (s := { heads := sampleHeads }) hinit (by decide +kernel) (by decide +kernel)
    rcases i with (_ | _) | _
    · exact ⟨1, rfl⟩
    · exact ⟨1, rfl⟩
    · exact ⟨0, rfl⟩
  refine Staged.reachable_visits Main.mem_threads (v := fun w => decide (w.heads = sampleHeads))
    (fun x hx q w hw => ?_) hlaunch (by decide +kernel) (by decide +kernel)
  have hx2 : x.2 = sampleNode := by
    rcases List.mem_append.mp hx with hx | hx
    · rw [List.eq_of_mem_replicate hx]
    · rw [List.eq_of_mem_replicate hx]
  rw [hx2]
  exact hnode x.1 q w hw

theorem relays_wait_sample : ∃ w th, sampleSystem.Reachable ⟨w, .running th⟩ ∧
    (th (.inl .dispatcher)).query? =
      some (.send (.executeTransaction [1] ⟨1, 5, 6, 20, 10, 300, 0, [1, 2]⟩)) ∧
    Due sampleChains sampleRoute ⟨1, 5, 6, 20, 10, 300, 0, [1, 2]⟩ w := by
  have hquery : (executing.thread (.inl .dispatcher)).query? =
      some (.send (.executeTransaction [1] ⟨1, 5, 6, 20, 10, 300, 0, [1, 2]⟩)) := by decide +kernel
  have hreach := reachable_executing
  generalize executing = c at hquery hreach
  exact ⟨_, _, hreach, hquery, (relays_wait sampleRoute true sampleChains hreach).2.2 _ _ _
    rfl hquery⟩

end Relays

end VeaValidator
