import VeaValidator.Feeding
import VeaValidator.Lifecycle

/-!
The keys of the queue.

A task is looked up by its epoch and its kind, so the queue should hold at most one for each
such key. `add_task` does not check that. Every producer has a reason why its task is not there
yet, and four of these reasons can fail: the second `VerificationStarted` log of an epoch, and
a `Challenged` or a `Verified` log that is delivered again, find their task still queued, and a
`ValidateClaim` task that is executed again after a crash gives its verdict twice.
-/

namespace VeaValidator

open Coop

namespace Uniqueness

/-- No two queued tasks have the same key. -/
def Unique (w : World) : Prop := (w.schedule.tasks.map Task.key).Nodup

variable {s t u : World} {e : ℕ}

/-! ### The steps -/

lemma unique_addTask {task : Task} (h : Unique s)
    (hnew : ¬s.Queued task.epoch task.kind.name) : Unique (s.addTask task) := by
  have hdisjoint : ∀ key ∈ s.schedule.tasks.map Task.key, key ≠ task.key := by
    rintro key hkey rfl
    exact hnew hkey
  rw [Unique, World.keys_addTask]
  refine List.nodup_append.mpr ⟨h, List.nodup_singleton _, fun key hkey key' hkey' => ?_⟩
  rw [List.mem_singleton.mp hkey']
  exact hdisjoint key hkey

lemma unique_removeTask {task : Task} (h : Unique s) : Unique (s.removeTask task) :=
  h.sublist (s.keys_removeTask task)

lemma unique_rescheduleTask {task : Task} {n : ℕ} (h : Unique s) :
    Unique (s.rescheduleTask task n) := by
  rw [Unique, World.keys_rescheduleTask]
  exact h

lemma unique_invalidateTasks {ks : List KindName} (h : Unique s) :
    Unique (s.invalidateTasks e ks) := h.sublist (s.keys_invalidateTasks e ks)

lemma unique_finish {now : ℕ} {task : Task} {result : Except String Unit} (h : Unique s) :
    Unique (Dispatcher.finish now task result s) :=
  h.sublist (Dispatcher.keys_finish now task result s)

/-! ### The protocol -/

/-- No log is handed out that queues a task for the second time, and no verdict is given whose
task is queued already. -/
def Careful : Role → (q : Query) → q.Answer → World → Prop
  | .indexer, .logs .outbox _, .ok (log :: _), w => ∀ e, w.claim? e ≠ none →
      (log.event? = some (.verificationStarted e) → ¬w.Queued e .verifySnapshot) ∧
      ∀ challenger, log.event? = some (.challenged e challenger) → ¬w.Queued e .sendSnapshot
  | .indexer, .snapshots e, .ok _, w => w.claim? e ≠ none → ¬w.Queued e .withdrawDeposit
  | .dispatcher, .snapshots e, .ok root, w =>
      ∀ d, w.claim? e = some d → ¬w.Queued e (Dispatcher.verdict d.stateRoot root).name
  | _, _, _, _ => True

/-- Nothing but verdicts is queued. -/
def Judges (s t : World) : Prop :=
  ∀ e k, k ≠ .challenge → k ≠ .startVerification → t.Queued e k → s.Queued e k

/-- Claims stay, with the root they claim. -/
def KeepsRoots (s t : World) : Prop :=
  ∀ e d, s.claim? e = some d → ∃ d', t.claim? e = some d' ∧ d'.stateRoot = d.stateRoot

lemma Judges.refl (s : World) : Judges s s := fun _ _ _ _ h => h

lemma Judges.trans (h : Judges s t) (h' : Judges t u) : Judges s u :=
  fun e k hc hs hq => h e k hc hs (h' e k hc hs hq)

lemma KeepsRoots.refl (s : World) : KeepsRoots s s := fun _ d hd => ⟨d, hd, rfl⟩

lemma KeepsRoots.trans (h : KeepsRoots s t) (h' : KeepsRoots t u) : KeepsRoots s u := by
  intro e d hd
  obtain ⟨d', hd', hroot⟩ := h e d hd
  obtain ⟨d'', hd'', hroot'⟩ := h' e d' hd'
  exact ⟨d'', hd'', hroot'.trans hroot⟩

/-- The keys stay unique; the indexer queues what it likes, but changes no claimed root. -/
@[simps]
def protocol : Protocol Role World Panic Query.Answer where
  inv := Unique
  durable := Unique
  rely
    | .indexer, s, t => Judges s t
    | .dispatcher, s, t => KeepsRoots s t
  guar
    | .indexer, s, t => KeepsRoots s t
    | .dispatcher, s, t => Judges s t
  answer := Careful
  issue _ _ _ := True
  fault _ _ _ := True

lemma keepsRoots_of_claim? (h : ∀ e, t.claim? e = s.claim? e) : KeepsRoots s t :=
  fun e d hd => ⟨d, (h e).trans hd, rfl⟩

lemma keepsRoots_storeClaim {c : ClaimData} : KeepsRoots s (s.storeClaim c) := by
  intro e d hd
  refine ⟨d, ?_, rfl⟩
  rw [World.claim?_storeClaim, hd, Option.some_or]

lemma keepsRoots_updateClaim {f : ClaimData → ClaimData} (hf : ∀ c, (f c).epoch = c.epoch)
    (hroot : ∀ c, (f c).stateRoot = c.stateRoot) : KeepsRoots s (s.updateClaim e f) := by
  intro e' d hd
  rw [World.claim?_updateClaim _ _ _ _ hf]
  by_cases he : e' = e
  · subst he
    exact ⟨f d, by rw [if_pos rfl, hd, Option.map_some], hroot d⟩
  · exact ⟨d, by rw [if_neg he, hd], rfl⟩

lemma patient_indexer {J : World → Prop} (h : ∀ s t, J s → Judges s t → J t) :
    Patient protocol .indexer J where
  rely s t hJ ht _ := h s t hJ ht
  issue _ _ _ _ _ := trivial
  fault _ _ _ _ _ := trivial

/-! ### The handlers -/

section
variable {route : Route} {log : Log} {event : Event}

/-- The last write of a handler. -/
lemma wp_queue {task : Task} (h : Unique t) (hnew : ¬t.Queued task.epoch task.kind.name) :
    (TaskStore.addTask task).wp protocol .indexer (fun _ => Unique) t := by
  have hadded := unique_addTask h hnew
  exact ⟨keepsRoots_of_claim? fun _ => rfl, hadded, hadded⟩

lemma wp_missingClaim {ts : ℕ} (h : Unique t) :
    (Indexer.missingClaim route e ts).wp protocol .indexer (fun _ => Unique) t :=
  Indexer.wp_missingClaim (fun _ => h) fun _ => ⟨h, trivial⟩

lemma wp_act (hI : Unique s) (hev : log.event? = some event) {f : Filter} {logs : List Log}
    (hc : Careful .indexer (.logs .outbox f) (.ok (log :: logs)) s) :
    (Indexer.act route log event).wp protocol .indexer (fun _ => Unique) s := by
  cases event with
  | claimed e claimer root =>
    have hp : Patient protocol .indexer fun _ => True := patient_indexer fun _ _ _ _ => trivial
    refine Indexer.wp_claimed hp hI trivial (fun t hIt _ _ => hIt) fun ts t _ hIt _ hnone => ?_
    have hnew : ¬t.Queued e .validateClaim := by
      intro hq
      obtain ⟨task, hm, hkey⟩ := List.mem_map.mp hq
      exact hnone task hm (congrArg Prod.fst hkey)
    rw [Prog.wp_bind, wp_store]
    exact ⟨fun _ => ⟨hIt, trivial⟩, fun _ => ⟨keepsRoots_storeClaim, hIt, wp_queue hIt hnew⟩⟩
  | verificationStarted e =>
    -- the dispatcher queues no `VerifySnapshot` task while the handler waits
    have hp : Patient protocol .indexer fun t => s.claim? e ≠ none → ¬t.Queued e .verifySnapshot :=
      patient_indexer fun t u h hu hd hq => h hd (hu e _ (by decide) (by decide) hq)
    refine Indexer.wp_verificationStarted hp hI (fun hd => (hc e hd).1 hev)
      (fun _ ts t _ hIt _ => wp_missingClaim hIt) fun hstored ts n t _ _ hIt ht => ?_
    rw [Prog.wp_bind, wp_update]
    have hcleared : Unique ((t.updateClaim e (ClaimData.startVerification (u32 ts)
        (u32 n))).invalidateTasks e [.startVerification]) :=
      unique_invalidateTasks (s := t.updateClaim e _) hIt
    refine ⟨fun _ => ⟨hIt, trivial⟩, fun d _ => ⟨keepsRoots_updateClaim (fun _ => rfl) fun _ => rfl,
      hIt, keepsRoots_of_claim? fun _ => rfl, hcleared, wp_queue hcleared ?_⟩⟩
    rw [World.queued_invalidateTasks, World.queued_updateClaim]
    exact fun hq => ht hstored hq.1
  | challenged e challenger =>
    have hp : Patient protocol .indexer fun t => s.claim? e ≠ none → ¬t.Queued e .sendSnapshot :=
      patient_indexer fun t u h hu hd hq => h hd (hu e _ (by decide) (by decide) hq)
    have hfree : s.claim? e ≠ none → ¬s.Queued e .sendSnapshot :=
      fun hd => (hc e hd).2 challenger hev
    refine Indexer.wp_challenged hp hp hI hfree (fun _ ts t _ hIt _ => wp_missingClaim hIt)
      fun hstored => ?_
    rw [Prog.wp_bind, wp_update]
    have hcleared : Unique ((s.updateClaim e (ClaimData.challengeBy challenger)).invalidateTasks e
        [.validateClaim, .challenge, .startVerification, .verifySnapshot]) :=
      unique_invalidateTasks (s := s.updateClaim e _) hI
    refine ⟨fun _ => ⟨hI, trivial⟩, fun d _ => ⟨keepsRoots_updateClaim (fun _ => rfl) fun _ => rfl,
      hI, keepsRoots_of_claim? fun _ => rfl, hcleared, hcleared, fun hd => ?_,
      fun ts u _ hIu hu => wp_queue hIu (hu hstored)⟩⟩
    rw [World.queued_invalidateTasks, World.queued_updateClaim]
    exact fun hq => hfree hd hq.1
  | verified e =>
    have hp : Patient protocol .indexer fun _ => True := patient_indexer fun _ _ _ _ => trivial
    refine Indexer.wp_verified (D := fun _ _ => True) hp hI trivial (fun _ _ _ => trivial)
      (fun _ _ _ _ _ => trivial) (fun _ _ _ _ _ _ _ => trivial)
      (fun ts t _ hIt _ _ => wp_missingClaim hIt) fun ts d root t _ ha hIt _ _ => ?_
    rw [Prog.wp_bind, wp_update]
    have hcleared : Unique ((t.updateClaim e (ClaimData.settle
        (if d.stateRoot = root then "Claimer" else "Challenger"))).invalidateTasks e
        [.validateClaim, .challenge, .startVerification, .verifySnapshot, .executeRelay]) :=
      unique_invalidateTasks (s := t.updateClaim e _) hIt
    refine ⟨fun _ => ⟨hIt, trivial⟩, fun d' hd' => ⟨keepsRoots_updateClaim (fun _ => rfl)
      fun _ => rfl, hIt, keepsRoots_of_claim? fun _ => rfl, hcleared, wp_queue hcleared ?_⟩⟩
    have hnone : ¬t.Queued e .withdrawDeposit := ha (by rw [hd']; exact Option.some_ne_none d')
    rw [World.queued_invalidateTasks, World.queued_updateClaim]
    exact fun hq => hnone hq.1

lemma wp_handle {target : ScanTarget} {f : Filter} {logs : List Log} (hI : Unique s)
    (hc : Careful .indexer (.logs (Indexer.provider target) f) (.ok (log :: logs)) s) :
    (Indexer.handle route target log).wp protocol .indexer (fun _ => Unique) s := by
  refine Indexer.wp_handle (D := Unique) ?_
    fun t ht => ⟨keepsRoots_of_claim? fun _ => rfl, ht, ht⟩
  cases target with
  | outbox =>
    have hp : Patient protocol .indexer fun _ => True := patient_indexer fun _ _ _ _ => trivial
    exact Indexer.wp_dispatchOutboxEvent hp hI trivial (fun _ => hI)
      fun event hev => wp_act hI hev hc
  | inbox =>
    -- no `ExecuteRelay` task is queued while the handler fetches the message
    have hp : Patient protocol .indexer fun t =>
        ∀ e, t.Queued e .executeRelay → s.Queued e .executeRelay :=
      patient_indexer fun t u h hu e hq => h e (hu e _ (by decide) (by decide) hq)
    refine Indexer.wp_dispatchInboxEvent (fun _ => hI) (fun _ => ?_) fun _ => ?_
    · refine Indexer.wp_handleSnapshotSent hp hI (fun _ h => h) (fun t hIt _ _ => hIt) ?_
      intro e task t _ hfree _ he hkind hIt ht
      refine wp_queue hIt fun hq => hfree (ht e ?_)
      rwa [he, hkind] at hq
    · refine Indexer.wp_handleSnapshotSaved hp hI (fun _ h => h) hI fun n => ?_
      exact ⟨keepsRoots_of_claim? fun _ => rfl, hI, hI⟩

/-! ### The dispatcher -/

lemma clerk : Dispatcher.Clerk protocol .dispatcher where
  note _ _ _ h := ⟨.refl _, h⟩
  reschedule _ _ _ h :=
    ⟨fun _ _ _ _ hq => (World.queued_rescheduleTask _ _ _ _ _).mp hq, unique_rescheduleTask h⟩
  remove _ _ h :=
    ⟨fun _ _ _ _ hq => ((World.queued_removeTask _ _ _ _).mp hq).1, unique_removeTask h⟩

lemma patient_dispatcher : Patient protocol .dispatcher fun _ => True where
  rely _ _ _ _ _ := trivial
  issue _ _ _ _ _ := trivial
  fault _ _ _ _ _ := trivial

/-- A `ValidateClaim` task knows the claimed root while it waits for the other one. -/
lemma executor (task : Task) : Dispatcher.Executor protocol .dispatcher (fun _ => True) route task
    (fun _ => True) fun root w => ∃ d, w.claim? task.epoch = some d ∧ d.stateRoot = root where
  toPatient := patient_dispatcher
  reads _ := { patient_dispatcher with
    none := fun _ _ _ _ => trivial
    many := fun _ _ _ => trivial }
  unknownRoute _ _ _ := trivial
  undetermined _ _ _ _ _ _ _ := trivial
  claim _ _ _ _ _ := trivial
  root _ d _ _ hd := ⟨d, hd, rfl⟩
  rootStays root s t h _ ht _ := by
    obtain ⟨d, hd, rfl⟩ := h
    obtain ⟨d', hd', hroot⟩ := ht _ d hd
    exact ⟨d', hd', hroot⟩
  send _ _ _ _ _ := trivial
  withdraw _ _ _ _ := ⟨trivial, trivial⟩

lemma wp_processTask {now : ℕ} {task : Task} (hI : Unique s) :
    (Dispatcher.processTask route now task).wp protocol .dispatcher (fun _ => Unique) s := by
  refine Dispatcher.wp_processTask clerk hI (Dispatcher.wp_body (executor task) hI trivial
    (fun result t hIt _ _ => ⟨hIt, unique_finish hIt⟩) (fun _ claimed root n t hIt _ hd ha => ?_)
    fun _ t hIt _ => ⟨.refl _, hIt, hIt, unique_finish (s := t.removeClaim task.epoch) hIt⟩)
  obtain ⟨d, hd, rfl⟩ := hd
  have hadded : Unique (t.addTask ⟨task.epoch, n, Dispatcher.verdict d.stateRoot root⟩) :=
    unique_addTask hIt (ha d hd)
  refine ⟨fun e k hchallenge hstart hq => ?_, hadded, hadded, unique_finish hadded⟩
  rcases (World.queued_addTask _ _ _ _).mp hq with hq | ⟨-, rfl⟩
  · exact hq
  · rcases Dispatcher.verdict_eq d.stateRoot root with h | h
    · exact absurd (congrArg TaskKind.name h) hstart
    · exact absurd (congrArg TaskKind.name h) hchallenge

end

/-! ### The runs -/

/-- The route is started again with its queue and its claims, wherever its cursors are set. -/
def Resumed (s t : World) : Prop := t.schedule.tasks = s.schedule.tasks ∧ t.claims = s.claims

/-- Any logs and any answers; the route may stop at any write and start again. -/
def system (route : Route) : System Role World Panic Query.Answer :=
  feedSystem route (fun _ _ _ _ => True) Resumed

theorem covers (route : Route) : protocol.Covers ((system route).restrict Careful) where
  rely_refl i s := by
    cases i with
    | indexer => exact Judges.refl s
    | dispatcher => exact KeepsRoots.refl s
  rely_trans i s t u h h' := by
    cases i with
    | indexer => exact Judges.trans h h'
    | dispatcher => exact KeepsRoots.trans h h'
  guar_rely := Role.guar_rely (fun _ _ h => h) fun _ _ h => h
  answer _ _ _ _ h := h.2
  env _ _ h := h.elim
  init s h := by
    show (s.schedule.tasks.map Task.key).Nodup
    rw [h.1]
    exact List.nodup_nil
  boot i p s t hp _ _ hI := by
    cases i with
    | indexer =>
      obtain ⟨n, rfl⟩ := hp
      exact Indexer.wp_feed (fun _ _ _ => trivial)
        (fun target log logs u hIu hu => wp_handle hIu hu) n hI
    | dispatcher =>
      obtain ⟨n, rfl⟩ := hp
      refine Dispatcher.wp_run (L := fun _ _ => True) patient_dispatcher (fun _ _ => trivial)
        (fun _ _ _ _ _ _ => trivial) (fun _ _ _ _ => trivial) (fun now task l u hIu _ => ?_) n hI
      exact Prog.wp_mono (fun _ v hv => ⟨hv, trivial⟩) (wp_processTask hIu)
  durable _ h := h
  restart s t h hst := by
    show (t.schedule.tasks.map Task.key).Nodup
    rw [hst.1]
    exact h

/-- **A key identifies a task, in careful runs.** In every state of every run in which nothing is
handed out that queues a task for the second time, crashes included, the queue holds at most
one task for each epoch and kind. -/
theorem keys_unique (route : Route) {c : Config Role World Panic Query.Answer}
    (hc : ((system route).restrict Careful).Reachable c) :
    (c.store.schedule.tasks.map Task.key).Nodup := ((covers route).reachable hc).inv

/-! ### A verification that starts twice -/

/-- The indexer is handed a log of the outbox. -/
def hand (log : Log) (o : (q : Query) → q.Answer) : List (Role × ((q : Query) → q.Answer)) :=
  Sample.times 2 .indexer (Sample.handing .outbox log o)

def doubledSchedule : List (Role × ((q : Query) → q.Answer)) :=
  hand (Sample.claimed 5 1 3) (Sample.node 100 0) ++
    hand (Sample.verificationStarted 5 4) (Sample.node 100 0) ++
      hand (Sample.verificationStarted 5 6) (Sample.node 100 0)

/-- The second `VerifySnapshot` task stands beside the first. -/
theorem verifySnapshot_doubled : ∃ c, (system Sample.route).Reachable c ∧
    ¬(c.store.schedule.tasks.map Task.key).Nodup := by
  refine ⟨Sample.hungry.play doubledSchedule, ?_, by decide +kernel⟩
  exact Sample.reachable_hungry (fun _ _ _ _ => trivial) (by decide +kernel)

/-! ### A careful run -/

/-- What `Careful` asks for, as a check of one answer. -/
def check : Role → (q : Query) → q.Answer → World → Bool
  | .indexer, .logs .outbox _, .ok (log :: _), w =>
    match log.event? with
    | some (.verificationStarted e) => !decide (w.Queued e .verifySnapshot)
    | some (.challenged e _) => !decide (w.Queued e .sendSnapshot)
    | _ => true
  | .indexer, .snapshots e, .ok _, w => !decide (w.Queued e .withdrawDeposit)
  | .dispatcher, .snapshots e, .ok root, w =>
    (w.claim? e).all fun d => !decide (w.Queued e (Dispatcher.verdict d.stateRoot root).name)
  | _, _, _, _ => true

lemma careful_check {i : Role} {q : Query} {a : q.Answer} {w : World}
    (h : check i q a w = true) : Careful i q a w := by
  cases i with
  | dispatcher =>
    cases q with
    | snapshots e =>
      cases a with
      | error err => trivial
      | ok root =>
        intro d hd
        have hverdict : (w.claim? e).all
            (fun d => !decide (w.Queued e (Dispatcher.verdict d.stateRoot root).name)) = true := h
        rw [hd] at hverdict
        simpa using hverdict
    | _ => trivial
  | indexer =>
    cases q with
    | snapshots e =>
      cases a with
      | error err => trivial
      | ok root =>
        intro _
        have hnone : (!decide (w.Queued e .withdrawDeposit)) = true := h
        simpa using hnone
    | logs p f =>
      cases p with
      | outbox =>
        rcases a with err | _ | ⟨log, logs⟩
        · trivial
        · trivial
        · refine fun e _ => ⟨fun hev => ?_, fun challenger hev => ?_⟩
          · simpa [check, hev] using h
          · simpa [check, hev] using h
      | inbox | ethereum => trivial
    | _ => trivial

/-- Two claims are handled and found right; then the verification of the one starts, and the other
is challenged. -/
def settlingSchedule : List (Role × ((q : Query) → q.Answer)) :=
  hand (Sample.claimed 5 1 3) Lifecycle.silent ++ hand (Sample.claimed 6 1 4) Lifecycle.silent ++
    Sample.times 6 .dispatcher (Sample.node 30000 0) ++
      hand (Sample.verificationStarted 5 5) Lifecycle.silent ++
        hand (Sample.challenged 6 6) Lifecycle.silent

def settling : Config Role World Panic Query.Answer := Sample.hungry.play settlingSchedule

lemma reachable_settling : ((system Sample.route).restrict Careful).Reachable settling := by
  have hboot : ((system Sample.route).restrict Careful).Reachable Sample.hungry := by
    refine .init ⟨rfl, rfl, rfl⟩ ?_
    rintro (_ | _)
    · exact ⟨4, rfl⟩
    · exact ⟨2, rfl⟩
  exact System.reachable_checks check Sample.mem_roles hboot
    (fun _ _ _ _ h => ⟨trivial, careful_check h⟩) (by decide +kernel) (by decide +kernel)

theorem keys_unique_sample : settling.store.schedule.tasks.map Task.key =
      [(5, .verifySnapshot), (6, .sendSnapshot)] ∧
    (settling.store.schedule.tasks.map Task.key).Nodup :=
  ⟨by decide +kernel, keys_unique Sample.route reachable_settling⟩

end Uniqueness

end VeaValidator
