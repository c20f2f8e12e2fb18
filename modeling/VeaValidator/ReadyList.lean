import VeaValidator.Interleaving

/-!
The ready list of a pass is a copy.

`process_pending` takes the tasks that are due from the queue and then executes them one after
the other, each after however long the ones before it take. What an event handler invalidates
meanwhile goes from the queue and stays in the list.
-/

namespace VeaValidator

open Coop

namespace ReadyList

/-! ### The tasks that wait for their turn -/

/-- The pass that began in `w₀` has come to the task. -/
def Begun (w₀ w : World) (task : Task) : Prop :=
  ∃ lines, w.log = lines ++ w₀.log ∧ .executing task ∈ lines

/-- The task is in the ready list of the pass that began in `w₀`, and not begun. -/
def Waits (now : ℕ) (w₀ w : World) (task : Task) : Prop :=
  task ∈ w₀.schedule.tasks ∧ now ≥ task.executeAfter ∧ ¬Begun w₀ w task

/-- The others execute nothing, and a queued task that waits for its turn stays queued. -/
structure Spares (now : ℕ) (w₀ s t : World) : Prop where
  log : ∃ lines, t.log = lines ++ s.log ∧ ∀ task, .executing task ∉ lines
  queued : ∀ task, Waits now w₀ s task → s.Queued task.epoch task.kind.name →
    t.Queued task.epoch task.kind.name

/-- The clock of a pass is the time of the block it asks for first. -/
def Clock (now : ℕ) : (q : Query) → q.Answer → World → Prop
  | .blockByNumber .outbox .latest, .ok (some block), _ => block.timestamp = now
  | _, _, _ => True

variable {route : Route} {now : ℕ} {w₀ s t u v : World} {task : Task} {l : List Task}

/-- The tasks of a pass that are still to come. -/
structure Left (now : ℕ) (w₀ : World) (l : List Task) (w : World) : Prop where
  log : ∃ lines, w.log = lines ++ w₀.log ∧ ∀ task ∈ l, .executing task ∉ lines
  source : ∀ task ∈ l, task ∈ w₀.schedule.tasks ∧ now ≥ task.executeAfter
  queued : ∀ task ∈ l, w.Queued task.epoch task.kind.name
  alone : l.Pairwise fun a b => a.key ≠ b.key

lemma Left.waits (h : Left now w₀ l s) (hm : task ∈ l) : Waits now w₀ s task := by
  obtain ⟨hsource, hdue⟩ := h.source task hm
  refine ⟨hsource, hdue, ?_⟩
  rintro ⟨lines, hlog, hbegun⟩
  obtain ⟨lines', hlog', hnot⟩ := h.log
  obtain rfl : lines = lines' := List.append_cancel_right (hlog.symm.trans hlog')
  exact hnot task hm hbegun

/-- What executes none of the tasks and leaves them in the queue. -/
lemma Left.step (h : Left now w₀ l s)
    (hlog : ∃ lines, t.log = lines ++ s.log ∧ ∀ task ∈ l, .executing task ∉ lines)
    (hqueued : ∀ task ∈ l, s.Queued task.epoch task.kind.name →
      t.Queued task.epoch task.kind.name) : Left now w₀ l t where
  log := by
    obtain ⟨lines, hlines, hnot⟩ := h.log
    obtain ⟨lines', hlines', hnot'⟩ := hlog
    refine ⟨lines' ++ lines, by rw [hlines', hlines, List.append_assoc], fun task hm hmem => ?_⟩
    rcases List.mem_append.mp hmem with hmem | hmem
    · exact hnot' task hm hmem
    · exact hnot task hm hmem
  source := h.source
  queued task hm := hqueued task hm (h.queued task hm)
  alone := h.alone

lemma Left.spares (h : Left now w₀ l s) (hst : Spares now w₀ s t) : Left now w₀ l t := by
  obtain ⟨lines, hlines, hnone⟩ := hst.log
  exact h.step ⟨lines, hlines, fun task _ => hnone task⟩ fun task hm => hst.queued task (h.waits hm)

lemma Left.note {o : Obs} (h : Left now w₀ l s) (ho : ∀ task ∈ l, o ≠ .executing task) :
    Left now w₀ l (s.note o) := by
  refine h.step ⟨[o], rfl, fun task hm hmem => ?_⟩ fun _ _ hq => hq
  exact ho task hm (List.mem_singleton.mp hmem).symm

/-- The task at the front has its turn. -/
lemma Left.begin (h : Left now w₀ (task :: l) s) : Left now w₀ l (s.note (.executing task)) := by
  obtain ⟨halone, hpair⟩ := List.pairwise_cons.mp h.alone
  have htail : Left now w₀ l s := by
    obtain ⟨lines, hlines, hnot⟩ := h.log
    exact ⟨⟨lines, hlines, fun x hx => hnot x (List.mem_cons_of_mem _ hx)⟩,
      fun x hx => h.source x (List.mem_cons_of_mem _ hx),
      fun x hx => h.queued x (List.mem_cons_of_mem _ hx), hpair⟩
  refine htail.note fun x hx heq => ?_
  obtain rfl : task = x := Obs.executing.inj heq
  exact halone task hx rfl

lemma log_finish (now : ℕ) (task : Task) (result : Except String Unit) (w : World) :
    ∃ lines, (Dispatcher.finish now task result w).log = lines ++ w.log ∧
      ∀ x, .executing x ∉ lines := by
  rw [Dispatcher.log_finish]
  rcases result with err | ⟨⟩
  · cases hdelay : Dispatcher.rescheduleDelay task.kind err with
    | none => exact ⟨[.returned task (.error err)], by simp [hdelay], by simp⟩
    | some delay =>
      exact ⟨[.completed task, .rescheduling task (u64 (now + delay)), .returned task (.error err)],
        by simp [hdelay], by simp⟩
  · exact ⟨[.completed task, .returned task (.ok ())], rfl, by simp⟩

/-- The end of the turn of a task that has no like in the rest of the list. -/
lemma Left.finish {result : Except String Unit} (h : Left now w₀ l s)
    (halone : ∀ x ∈ l, task.key ≠ x.key) :
    Left now w₀ l (Dispatcher.finish now task result s) := by
  obtain ⟨lines, hlines, hnone⟩ := log_finish now task result s
  refine h.step ⟨lines, hlines, fun x _ => hnone x⟩ fun x hx hq => ?_
  rw [Dispatcher.queued_finish]
  refine ⟨hq, ?_⟩
  rintro ⟨-, he, hk⟩
  exact halone x hx (Prod.ext he.symm hk.symm)

/-! ### The protocol -/

/-- Every execution that begins is of a queued task. -/
@[simps]
def protocol (now : ℕ) (w₀ : World) : Protocol Unit World Panic Query.Answer where
  inv _ := True
  durable _ := True
  rely _ := Spares now w₀
  guar _ u v := ∀ task, v.log = .executing task :: u.log → u.Queued task.epoch task.kind.name
  answer _ := Clock now
  issue _ _ _ := True
  fault _ _ _ := True

/-- A write with another line, or none, begins nothing. -/
lemma guar_of_line {o : Obs} (hlog : v.log = o :: u.log) (ho : ∀ task, o ≠ .executing task) :
    (protocol now w₀).guar () u v := by
  intro task hv
  rw [hlog] at hv
  exact absurd (List.cons.inj hv).1 (ho task)

lemma guar_of_log_eq (hlog : v.log = u.log) : (protocol now w₀).guar () u v := by
  intro task hv
  rw [hlog] at hv
  exact absurd (congrArg List.length hv) (by simp)

lemma patient {J : World → Prop} (h : ∀ s t, J s → Spares now w₀ s t → J t) :
    Patient (protocol now w₀) () J where
  rely s t hJ ht _ := h s t hJ ht
  issue _ _ _ _ _ := trivial
  fault _ _ _ _ _ := trivial

lemma executor :
    Dispatcher.Executor (protocol now w₀) () (Left now w₀ l) route task (fun _ => True)
      fun _ _ => True := by
  have hp : Patient (protocol now w₀) () (Left now w₀ l) := patient fun _ _ h => h.spares
  exact .free hp (fun _ _ => trivial) (fun _ => { hp with
    none := fun _ _ _ _ => trivial
    many := fun _ _ _ => trivial }) (fun _ => trivial) fun _ => trivial

lemma wp_processTask (h : Left now w₀ (task :: l) s) :
    (Dispatcher.processTask route now task).wp (protocol now w₀) ()
      (fun _ t => True ∧ Left now w₀ l t) s := by
  obtain ⟨halone, -⟩ := List.pairwise_cons.mp h.alone
  refine Dispatcher.wp_turn ⟨fun x hx => ?_, trivial⟩ (fun o u _ ho _ => ⟨guar_of_line rfl ho, trivial⟩)
    (fun n u _ => ⟨guar_of_line rfl (fun _ ht => by cases ht), trivial⟩)
    (fun u _ => ⟨guar_of_log_eq rfl, trivial⟩)
    (Dispatcher.wp_body executor trivial h.begin (fun result t _ ht _ => ?_)
      (fun _ claimed root n t _ ht _ _ => ?_) fun _ t _ ht => ?_)
  · obtain rfl : task = x := Obs.executing.inj (List.cons.inj hx).1
    exact h.queued task List.mem_cons_self
  · exact ⟨trivial, trivial, ht.finish halone⟩
  · refine ⟨guar_of_line rfl (fun _ ho => by cases ho), trivial, trivial, trivial, ?_⟩
    refine Left.finish (ht.step ⟨[_], rfl, by simp⟩ fun x _ hq => ?_) halone
    exact (World.queued_addTask _ _ _ _).mpr (.inl hq)
  · refine ⟨guar_of_log_eq rfl, trivial, trivial, trivial, ?_⟩
    exact Left.finish (ht.step ⟨[], rfl, by simp⟩ fun _ _ hq => hq) halone

/-! ### The theorem -/

/-- **What a spared pass executes is queued.** Let no two due tasks have the same epoch and
kind, and let nobody take a due task out of the queue before its turn. Whenever the pass then
begins to execute a task, a task of this epoch and kind is in the queue. -/
theorem executes_queued (route : Route) (now : ℕ) (w₀ : World)
    (halone : (w₀.schedule.tasks.filter fun x => now ≥ x.executeAfter).Pairwise
      fun a b => a.key ≠ b.key) {u v : World}
    (hwrite : (Dispatcher.processPending route).Writes (Spares now w₀) (Clock now) w₀ u v)
    {task : Task} (hbegins : v.log = .executing task :: u.log) :
    u.Queued task.epoch task.kind.name := by
  have hpass : (Dispatcher.processPending route).wp (protocol now w₀) () (fun _ _ => True) w₀ := by
    refine Dispatcher.wp_processPending (L := fun n l w => n = now ∧ Left now w₀ l w)
      (patient fun _ _ _ _ => trivial) (fun block t ht _ ha => ?_) (fun n x l s _ hL => ?_) trivial
    · obtain rfl : block.timestamp = now := ha
      have hall : Left block.timestamp w₀
          (w₀.schedule.tasks.filter fun x => block.timestamp ≥ x.executeAfter) w₀ := by
        refine ⟨⟨[], rfl, by simp⟩, fun x hx => ?_, fun x hx => ?_, halone⟩
        · simpa using List.mem_filter.mp hx
        · exact World.queued_of_mem (List.mem_filter.mp hx).1
      exact ⟨rfl, hall.spares ht⟩
    · obtain ⟨rfl, hleft⟩ := hL
      exact Prog.wp_mono (fun _ t ht => ⟨trivial, rfl, ht.2⟩) (wp_processTask hleft)
  have hrely : (fun s t => (protocol now w₀).rely () s t ∧ (protocol now w₀).inv t) =
      Spares now w₀ := by
    funext s t
    exact propext (and_iff_left trivial)
  refine Prog.wp_writes hpass (hrely ▸ hwrite) task hbegins

/-! ### An invalidated task that is executed -/

/-- Two claims are handled, and their `ValidateClaim` tasks are due. -/
def claims : Config Role World Panic Query.Answer :=
  (Sample.start [(.outbox, Sample.claimed 5 1 3), (.outbox, Sample.claimed 6 1 4),
    (.outbox, Sample.challenged 6 5)]).play (Sample.times 2 .indexer (Sample.node 100 0))

lemma clock_node (balance : ℕ) (q : Query) (w : World) :
    Clock now q (Sample.node now balance q) w := by
  cases q with
  | blockByNumber p n => cases p <;> cases n <;> first | rfl | trivial
  | _ => trivial

theorem executes_queued_sample : ∃ u v, (Dispatcher.processPending Sample.route).Writes
    (Spares 100 claims.store) (Clock 100) claims.store u v ∧
    v.log = .executing ⟨6, 40, .validateClaim⟩ :: u.log ∧ u.Queued 6 .validateClaim := by
  have hmem : ∃ x ∈ (Dispatcher.processPending Sample.route).evalWrites (Sample.node 100 0)
      claims.store, x.2.log = .executing ⟨6, 40, .validateClaim⟩ :: x.1.log := by
    decide +kernel
  obtain ⟨⟨u, v⟩, hx, hlog⟩ := hmem
  have hwrite : (Dispatcher.processPending Sample.route).Writes (Spares 100 claims.store) (Clock 100)
      claims.store u v :=
    Prog.writes_eval (fun s => ⟨⟨[], rfl, by simp⟩, fun _ _ h => h⟩) (fun q s => clock_node 0 q s) hx
  exact ⟨u, v, hwrite, hlog,
    executes_queued Sample.route 100 claims.store (by decide +kernel) hwrite hlog⟩

/-- Any logs, any answers, and no crash. -/
def system (route : Route) : System Role World Panic Query.Answer :=
  handlerSystem route (fun _ => True) (fun _ _ _ _ => True) fun _ _ => False

/-- While the first of them is executed the second claim is challenged. -/
def midway : Config Role World Panic Query.Answer :=
  claims.play (Sample.times 2 .dispatcher (Sample.node 100 0) ++
    Sample.times 1 .indexer (Sample.node 100 0))

lemma reachable_midway : (system Sample.route).Reachable midway := by
  have hclaims : (system Sample.route).Reachable claims := by
    refine System.reachable_play Sample.mem_roles (fun _ _ _ _ => trivial) (.init ⟨rfl, rfl, rfl⟩ ?_)
      (by decide +kernel)
    rintro (_ | _)
    · exact ⟨_, trivial, rfl⟩
    · exact ⟨2, rfl⟩
  exact System.reachable_play Sample.mem_roles (fun _ _ _ _ => trivial) hclaims (by decide +kernel)

/-- The pass goes on and executes a task that has been invalidated. -/
theorem invalidated_executed : ∃ c p, (system Sample.route).Reachable c ∧
    (system Sample.route).Enabled c .dispatcher p ∧
    ∃ u v task, p.Writes Eq (fun _ _ _ => True) c.store u v ∧
      v.log = .executing task :: u.log ∧ ¬u.Queued task.epoch task.kind.name := by
  have hmem : ∃ x ∈ ((midway.thread .dispatcher).resume (Sample.node 100 0)).evalWrites
      (Sample.node 100 0) midway.store, x.2.log = .executing ⟨6, 40, .validateClaim⟩ :: x.1.log ∧
        ¬x.1.Queued 6 .validateClaim := by
    decide +kernel
  obtain ⟨⟨u, v⟩, hx, hlog, hnot⟩ := hmem
  exact ⟨midway, _, reachable_midway, System.enabled_resume fun _ _ => trivial, u, v, _,
    Prog.writes_eval (fun _ => rfl) (fun _ _ => trivial) hx, hlog, hnot⟩

end ReadyList

end VeaValidator
