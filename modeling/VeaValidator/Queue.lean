import VeaValidator.Gate

/-!
The queue of a route.

Both writers load the queue, change it and save it, and a task is on its way through many turns of
both. What is in the queue is nevertheless what the log says: a task gets there by being scheduled,
and leaves it when the dispatcher has completed one with its key, or an event has invalidated the
tasks of its epoch.
-/

namespace VeaValidator

open Coop

namespace Queue

/-- What a line says of a key: that a task with it is queued, or that none has to be any more. -/
def verdict (e : ℕ) (k : KindName) : Obs → Option Bool
  | .scheduling task => if task.key = (e, k) then some true else none
  | .completed task => if task.key = (e, k) then some false else none
  | .invalidated epoch _ => if epoch = e then some false else none
  | _ => none

/-- A task with this epoch and kind has been scheduled, and since then none was completed, nor have
tasks of the epoch been invalidated. -/
def Awaited (e : ℕ) (k : KindName) (log : List Obs) : Prop := log.findSome? (verdict e k) = some true

instance (e : ℕ) (k : KindName) (log : List Obs) : Decidable (Awaited e k log) :=
  inferInstanceAs (Decidable (_ = _))

/-- The body of the task has returned, and with an error only if the task was put off. -/
def Ended (task : Task) (log : List Obs) : Prop :=
  (∃ rest, log = .returned task (.ok ()) :: rest) ∨
    ∃ n e delay rest, Dispatcher.rescheduleDelay task.kind e = some delay ∧
      log = .rescheduling task n :: .returned task (.error e) :: rest

/-- What is completed has ended. -/
def Earned : List Obs → Prop
  | [] => True
  | o :: log => (∀ task, o = .completed task → Ended task log) ∧ Earned log

/-- The task was scheduled, for its time or another one from which it was put off. -/
def Sourced (task : Task) (log : List Obs) : Prop :=
  ∃ n, .scheduling ⟨task.epoch, n, task.kind⟩ ∈ log ∧ (n = task.executeAfter ∨
    ∃ task', task'.key = task.key ∧ .rescheduling task' task.executeAfter ∈ log)

structure Inv (w : World) : Prop where
  sourced : ∀ task ∈ w.schedule.tasks, Sourced task w.log
  kept : ∀ e k, Awaited e k w.log → w.Queued e k
  earned : Earned w.log

variable {s t w : World} {task : Task} {o : Obs} {log log' : List Obs} {e : ℕ} {k : KindName}

/-- The line is about no task in the queue. -/
def Neutral : Obs → Prop
  | .scheduling _ | .completed _ | .invalidated _ _ => False
  | _ => True

lemma awaited_cons : Awaited e k (o :: log) ↔
    verdict e k o = some true ∨ verdict e k o = none ∧ Awaited e k log := by
  unfold Awaited
  rw [List.findSome?_cons]
  cases verdict e k o <;> simp

lemma awaited_neutral (ho : Neutral o) : Awaited e k (o :: log) ↔ Awaited e k log := by
  have hnone : verdict e k o = none := by
    cases o with
    | scheduling task => exact ho.elim
    | completed task => exact ho.elim
    | invalidated epoch n => exact ho.elim
    | _ => rfl
  rw [awaited_cons, hnone]
  simp

/-- What is awaited after a line that ends tasks was so before, and the line is about others. -/
lemma awaited_of_ended {c : Prop} [Decidable c]
    (ho : verdict e k o = if c then some false else none) (h : Awaited e k (o :: log)) :
    ¬c ∧ Awaited e k log := by
  rw [awaited_cons, ho] at h
  split at h
  · next hc => rcases h with h | ⟨h, -⟩ <;> cases h
  · next hc => exact ⟨hc, (h.resolve_left nofun).2⟩

lemma earned_cons (h : Earned log) (ho : ∀ task, o ≠ .completed task) : Earned (o :: log) :=
  ⟨fun task heq => absurd heq (ho task), h⟩

lemma Sourced.mono (h : Sourced task log) (hsub : log ⊆ log') : Sourced task log' := by
  obtain ⟨n, hn, hor⟩ := h
  refine ⟨n, hsub hn, hor.imp_right ?_⟩
  rintro ⟨task', hkey, htask'⟩
  exact ⟨task', hkey, hsub htask'⟩

lemma ended_of_earned (h : Earned (log ++ .completed task :: log')) : Ended task log' := by
  induction log with
  | nil => exact h.1 task rfl
  | cons o log ih => exact ih h.2

/-! ### The writes -/

/-- A write that leaves the queue alone. -/
lemma inv_of_eq (h : Inv s) (htasks : t.schedule.tasks = s.schedule.tasks) (hlog : t.log = s.log) :
    Inv t := by
  refine ⟨fun task ht => ?_, fun e k hk => ?_, by rw [hlog]; exact h.earned⟩
  · rw [htasks] at ht
    rw [hlog]
    exact h.sourced task ht
  · rw [hlog] at hk
    rw [World.Queued, htasks]
    exact h.kept e k hk

/-- The same with a line. -/
lemma inv_of_line (h : Inv s) (htasks : t.schedule.tasks = s.schedule.tasks)
    (hlog : t.log = o :: s.log) (ho : Neutral o) : Inv t := by
  refine ⟨fun task ht => ?_, fun e k hk => ?_, ?_⟩
  · rw [htasks] at ht
    rw [hlog]
    exact (h.sourced task ht).mono (List.subset_cons_self _ _)
  · rw [hlog, awaited_neutral ho] at hk
    rw [World.Queued, htasks]
    exact h.kept e k hk
  · rw [hlog]
    refine earned_cons h.earned fun task heq => ?_
    rw [heq] at ho
    exact ho

lemma inv_note (h : Inv s) (ho : Neutral o) : Inv (s.note o) := inv_of_line h rfl rfl ho

lemma inv_addTask (h : Inv s) : Inv (s.addTask task) := by
  refine ⟨fun task' ht => ?_, fun e k hk => ?_, earned_cons h.earned fun _ => nofun⟩
  · rcases List.mem_append.mp ht with ht | ht
    · exact (h.sourced task' ht).mono (List.subset_cons_self _ _)
    · obtain rfl := List.mem_singleton.mp ht
      exact ⟨task'.executeAfter, List.mem_cons_self, .inl rfl⟩
  · rw [World.queued_addTask]
    by_cases hkey : task.key = (e, k)
    · exact .inr ⟨(Prod.mk.inj hkey).1.symm, (Prod.mk.inj hkey).2.symm⟩
    · have hnone : verdict e k (.scheduling task) = none := if_neg hkey
      rw [World.log_addTask, awaited_cons, hnone] at hk
      exact .inl (h.kept e k (hk.resolve_left nofun).2)

lemma inv_rescheduleTask {n : ℕ} (h : Inv s) : Inv (s.rescheduleTask task n) := by
  refine ⟨fun task' ht => ?_, fun e k hk => ?_, earned_cons h.earned fun _ => nofun⟩
  · rcases Keyed.mem_update_key ht with hold | ⟨task'', hold, hkey, rfl⟩
    · exact (h.sourced task' hold).mono (List.subset_cons_self _ _)
    · obtain ⟨m, hm, -⟩ := h.sourced task'' hold
      exact ⟨m, List.mem_cons_of_mem _ hm, .inr ⟨task, hkey.symm, List.mem_cons_self⟩⟩
  · rw [World.queued_rescheduleTask]
    rw [World.log_rescheduleTask, awaited_neutral (o := .rescheduling task n) trivial] at hk
    exact h.kept e k hk

/-- An event takes tasks of its epoch from the queue only with a line. -/
lemma inv_invalidateTasks {epoch : ℕ} {ks : List KindName} (h : Inv s) :
    Inv (s.invalidateTasks epoch ks) := by
  have hsourced : ∀ task ∈ (s.invalidateTasks epoch ks).schedule.tasks,
      Sourced task (s.invalidateTasks epoch ks).log := fun task ht =>
    (h.sourced task (List.mem_of_mem_filter ht)).mono (World.log_subset_invalidateTasks _ _ _)
  by_cases hremoved : s.schedule.tasks.length - (s.invalidateTasks epoch ks).schedule.tasks.length > 0
  · have hlog : (s.invalidateTasks epoch ks).log = .invalidated epoch _ :: s.log := if_pos hremoved
    refine ⟨hsourced, fun e k hk => ?_, ?_⟩
    · rw [hlog] at hk
      obtain ⟨hother, hold⟩ := awaited_of_ended rfl hk
      rw [World.queued_invalidateTasks]
      exact ⟨h.kept e k hold, fun hek => hother hek.1.symm⟩
    · rw [hlog]
      exact earned_cons h.earned fun _ => nofun
  · have hlog : (s.invalidateTasks epoch ks).log = s.log := if_neg hremoved
    have htasks : (s.invalidateTasks epoch ks).schedule.tasks = s.schedule.tasks := by
      refine List.Sublist.eq_of_length_le List.filter_sublist ?_
      omega
    exact inv_of_eq h htasks hlog

/-- The dispatcher completes a task that has ended. -/
lemma inv_completed (h : Inv s) (hended : Ended task s.log) : Inv (s.note (.completed task)) := by
  refine ⟨fun task' ht => ?_, fun e k hk => h.kept e k (awaited_of_ended rfl hk).2,
    fun task' heq => ?_, h.earned⟩
  · exact (h.sourced task' ht).mono (List.subset_cons_self _ _)
  · obtain rfl : task = task' := Obs.completed.inj heq
    exact hended

/-- It removes the task it has just completed. -/
lemma inv_removeTask (h : Inv s) (hlog : s.log = .completed task :: log) : Inv (s.removeTask task) := by
  refine ⟨fun task' ht => h.sourced task' (List.mem_of_mem_filter ht), fun e k hk => ?_, h.earned⟩
  rw [World.queued_removeTask]
  refine ⟨h.kept e k hk, ?_⟩
  rintro ⟨rfl, rfl⟩
  have hawaited : Awaited task.epoch task.kind.name (.completed task :: log) := by
    rw [← hlog]
    exact hk
  exact (awaited_of_ended rfl hawaited).1 rfl

/-- A write of a handler. -/
lemma inv_write {target : ScanTarget} {log : Log} (h : Inv s) (hw : log.Write target s t) : Inv t := by
  cases hw with
  | relay task _ _ _ => exact inv_addTask h
  | save n => exact inv_of_eq h rfl rfl
  | act event _ hw =>
    cases hw with
    | store e claimer root ts _ _ => exact inv_of_eq h rfl rfl
    | update _ => exact inv_of_eq h rfl rfl
    | clear _ ks => exact inv_invalidateTasks h
    | queue _ n _ => exact inv_addTask h

/-! ### The protocol -/

/-- The invariant holds after every write. -/
@[simps]
def protocol : Protocol Role World Panic Query.Answer where
  inv := Inv
  durable := Inv
  rely _ _ _ := True
  guar _ _ _ := True
  answer _ _ _ _ := True
  issue _ _ _ := True
  fault _ _ _ := True

variable {route : Route} {i : Role}

lemma patient : Patient protocol i fun _ => True where
  rely _ _ _ _ _ := trivial
  issue _ _ _ _ _ := trivial
  fault _ _ _ _ _ := trivial

lemma reads (e : ℕ) : Reads protocol i (fun _ => True) e :=
  { patient with
    none := fun _ _ _ _ => trivial
    many := fun _ _ _ => trivial }

lemma keeps_modify {f : World → World} (hf : ∀ w, Inv w → Inv (f w)) :
    Prog.Keeps protocol i (fun _ => True) (Prog.modify f) := fun s hI _ =>
  ⟨trivial, hf s hI, hf s hI, trivial⟩

lemma keeps_handle (target : ScanTarget) (log : Log) :
    Prog.Keeps protocol .indexer (fun _ => True) (Indexer.handle route target log) := by
  intro s hI _
  have hconfined : Confined (log.Write target) (Indexer.dispatch route target log) :=
    confined_dispatch target log
  have hdispatch : Prog.Keeps protocol .indexer (fun _ => True) (Indexer.dispatch route target log) :=
    hconfined.keeps patient
      (fun _ _ hIt _ hw => ⟨trivial, inv_write hIt hw, inv_write hIt hw, trivial⟩)
      fun _ _ _ _ _ => trivial
  refine Indexer.wp_handle (hdispatch s hI trivial) ?_
  rintro t ⟨hIt, -⟩
  have hI' : Inv (t.note (.handled target log)) := inv_note hIt trivial
  exact ⟨trivial, hI', hI', trivial⟩

lemma keeps_indexer (n : ℕ) : Prog.Keeps protocol .indexer (fun _ => True) (do
    Indexer.initializeIndexer route
    Indexer.run route n) := by
  refine Prog.Keeps.bind (Indexer.keeps_initializeIndexer patient
    (keeps_modify fun _ hI => inv_of_eq hI rfl rfl)
    fun _ _ _ => keeps_modify fun _ hI => inv_of_line hI rfl rfl trivial) fun _ => ?_
  refine Indexer.keeps_run patient (fun _ _ _ _ => trivial)
    (fun target f => keeps_modify fun w hI => ?_) (fun target a b logs => keeps_modify fun w hI => ?_)
    (keeps_modify fun _ hI => inv_of_eq hI rfl rfl) keeps_handle n
  · exact inv_of_eq hI (by rw [World.schedule_setCatchup]) (by rw [World.log_setCatchup])
  · refine inv_of_line (o := .scanned target a b logs) hI ?_ rfl trivial
    cases target <;> rfl

/-- The last two writes of a turn. -/
lemma wp_complete (h : Inv s) (hended : Ended task s.log) :
    ((do
      info (.completed task)
      TaskStore.removeTask task) : M Unit).wp protocol .dispatcher (fun _ => Inv) s := by
  have hcompleted : Inv (s.note (.completed task)) := inv_completed h hended
  have hremoved : Inv ((s.note (.completed task)).removeTask task) := inv_removeTask hcompleted rfl
  rw [Prog.wp_bind, wp_info]
  exact ⟨trivial, hcompleted, trivial, hremoved, hremoved⟩

lemma wp_processTask {now : ℕ} (hI : Inv s) : (Dispatcher.processTask route now task).wp protocol
    .dispatcher (fun _ => Inv) s := by
  rw [Dispatcher.processTask, Dispatcher.executeTask, Prog.wp_bind, wp_info]
  have hstart : Inv (s.note (.executing task)) := inv_note hI trivial
  refine ⟨trivial, hstart, ?_⟩
  simp only [bind_assoc]
  have hbody : Prog.Keeps protocol .dispatcher (fun _ => True)
      (Dispatcher.body route task now).run :=
    Gate.keeps_body (reads _) (fun _ _ _ => trivial) (fun _ _ _ => trivial) (fun _ _ _ _ _ => trivial)
      (fun _ _ _ => keeps_modify fun _ hI => inv_addTask hI)
      (keeps_modify fun _ hI => inv_of_eq hI rfl rfl)
  rw [Prog.wp_bind]
  refine Prog.wp_mono ?_ (hbody _ hstart trivial)
  rintro result t ⟨hIt, -⟩
  have hreturned : Inv (t.note (.returned task result)) := inv_note hIt trivial
  rw [Prog.wp_bind, wp_info]
  refine ⟨trivial, hreturned, ?_⟩
  rcases result with e | ⟨⟩
  · rcases hdelay : Dispatcher.rescheduleDelay task.kind e with _ | delay
    · simp only [hdelay]
      exact hreturned
    · simp only [hdelay]
      have hput : Inv ((t.note (.returned task (.error e))).rescheduleTask task (u64 (now + delay))) :=
        inv_rescheduleTask hreturned
      rw [bind_assoc, Prog.wp_bind, wp_rescheduleTask]
      exact ⟨trivial, hput, wp_complete hput (.inr ⟨_, e, delay, t.log, hdelay, rfl⟩)⟩
  · exact wp_complete hreturned (.inl ⟨t.log, rfl⟩)

lemma wp_dispatcher (n : ℕ) (hI : Inv s) :
    (Dispatcher.run route n).wp protocol .dispatcher (fun _ => Inv) s := by
  refine Dispatcher.wp_run_of_passes patient (fun u hIu => ?_) n hI
  exact Dispatcher.wp_processPending (L := fun _ _ _ => True) patient (fun _ _ _ _ _ => trivial)
    (fun now task l v hIv _ => Prog.wp_mono (fun _ _ h => ⟨h, trivial⟩) (wp_processTask hIv)) hIu

/-! ### The route -/

theorem covers (route : Route) (answer : Role → (q : Query) → q.Answer → World → Prop) :
    protocol.Covers (scanSystem route (Indexer.initializeIndexer route) Coverage.Fresh answer
      Restarted) where
  rely_refl _ _ := trivial
  rely_trans _ _ _ _ _ _ := trivial
  guar_rely _ _ _ _ _ _ := trivial
  answer _ _ _ _ _ := trivial
  env s t hst hs := by
    obtain ⟨-, heq⟩ := hst
    exact ⟨inv_of_eq hs (by rw [heq]) (by rw [heq]), fun _ => trivial⟩
  init s hs := by
    rw [hs]
    refine ⟨fun task ht => ?_, fun e k hk => ?_, trivial⟩
    · cases ht
    · cases hk
  boot i p s t hp _ _ hs := by
    cases i with
    | indexer =>
      obtain ⟨n, rfl⟩ := hp
      exact Prog.wp_mono (fun _ u hu => hu.1) (keeps_indexer n t hs trivial)
    | dispatcher =>
      obtain ⟨n, rfl⟩ := hp
      exact wp_dispatcher n hs
  durable _ h := h
  restart s t hs hst := by
    obtain ⟨onSync, rfl⟩ := hst
    exact inv_of_eq hs rfl rfl

lemma tolerates : Main.Tolerates protocol where
  kept _ _ hI := ⟨inv_note hI trivial, inv_note hI trivial⟩
  unseen _ _ _ := trivial
  patient := patient

/-- **No task is lost and none appears from nowhere.** In every run of a route, whatever the nodes
answer, with any panics and retries and stops after any write: a task that is queued has been scheduled,
and is due then or when it was put off to; one that has been scheduled is queued, until a task with its
key is completed or an event invalidates tasks of its epoch; and a task is completed only right after
its body has returned, without an error or with one that puts it off. -/
theorem queue_accounted (route : Route) (makeClaims : Bool)
    (answer : Role → (q : Query) → q.Answer → World → Prop)
    {c : Staged.Config Thread World Panic Query.Answer ℕ}
    (hc : (Main.routeSystem route makeClaims Coverage.Fresh answer Restarted).Reachable c) :
    (∀ task ∈ c.store.schedule.tasks, Sourced task c.store.log) ∧
    (∀ e k, Awaited e k c.store.log → c.store.Queued e k) ∧
    ∀ newer task older, c.store.log = newer ++ .completed task :: older → Ended task older := by
  have hI := (Main.invariant_of_covers (covers route answer) tolerates hc).1
  refine ⟨hI.sourced, hI.kept, fun newer task older hlog => ?_⟩
  have hearned := hI.earned
  rw [hlog] at hearned
  exact ended_of_earned hearned

theorem queue_accounted_sample : Gate.verifying.store.Queued 5 .startVerification ∧
    (∀ task ∈ Gate.verifying.store.schedule.tasks, Sourced task Gate.verifying.store.log) ∧
    ∃ older, Ended ⟨5, 2500, .validateClaim⟩ older := by
  have hawaited : Awaited 5 .startVerification Gate.verifying.store.log := by decide +kernel
  have hcompleted : .completed ⟨5, 2500, .validateClaim⟩ ∈ Gate.verifying.store.log := by
    decide +kernel
  have hreach : (Gate.sampleSystem Coverage.Fresh).Reachable
      ⟨Gate.verifying.store, .running Gate.verifying.thread⟩ := Gate.reachable_verifying rfl
  generalize Gate.verifying = c at hawaited hcompleted hreach
  obtain ⟨hsourced, hkept, hended⟩ := queue_accounted Coverage.sampleRoute true _ hreach
  obtain ⟨newer, older, hlog⟩ := List.append_of_mem hcompleted
  exact ⟨hkept 5 .startVerification hawaited, hsourced, older, hended newer _ older hlog⟩

end Queue

end VeaValidator
