import VeaValidator.Coop.Comes
import VeaValidator.Interleaving

/-!
One pass of the dispatcher on its own.

The log of a pass tells the result of every body it has run. From the results alone follows
what each task should become, and what it becomes: the two differ where `executeTask`
reschedules a task, which is then removed like one that is done.
-/

namespace VeaValidator

open Coop

namespace Pass

/-- The result a log gives for a task. -/
def resultOf (log : List Obs) (task : Task) : Option (Except String Unit) :=
  log.findSome? fun
    | .returned t result => if t = task then some result else none
    | _ => none

/-- The tasks a log says were scheduled, oldest first. -/
def scheduled (log : List Obs) : List Task :=
  (log.filterMap fun
    | .scheduling t => some t
    | _ => none).reverse

/-- What a pass should leave of a task. -/
def fate (now : ℕ) (log : List Obs) (task : Task) : Option Task :=
  match resultOf log task with
  | none => some task
  | some (.ok _) => none
  | some (.error e) =>
    match Dispatcher.rescheduleDelay task.kind e with
    | some delay => some { task with executeAfter := u64 (now + delay) }
    | none => some task

/-- What it leaves. -/
def kept (log : List Obs) (task : Task) : Option Task :=
  match resultOf log task with
  | none => some task
  | some result => if Dispatcher.completes task result then none else some task

section
variable {now : ℕ} {log : List Obs} {task x : Task} {result : Except String Unit}

lemma kept_eq_none_or (log : List Obs) (task : Task) : kept log task = none ∨ kept log task = some task := by
  unfold kept
  split
  · exact .inr rfl
  · split
    · exact .inl rfl
    · exact .inr rfl

lemma kept_eq_none_or_fate : kept log task = none ∨ kept log task = fate now log task := by
  unfold kept fate
  rcases resultOf log task with _ | e | ⟨⟩
  · exact .inr rfl
  · cases hdelay : Dispatcher.rescheduleDelay task.kind e with
    | none => simp [Dispatcher.completes, hdelay]
    | some delay => simp [Dispatcher.completes, hdelay]
  · exact .inl rfl

lemma kept_eq_fate_iff : kept log task = fate now log task ↔
    ∀ e, resultOf log task = some (.error e) → Dispatcher.rescheduleDelay task.kind e = none := by
  unfold kept fate
  rcases resultOf log task with _ | e | ⟨⟩
  · simp
  · cases hdelay : Dispatcher.rescheduleDelay task.kind e with
    | none => simp [Dispatcher.completes, hdelay]
    | some delay => simp [Dispatcher.completes, hdelay]
  · simp [Dispatcher.completes]

/-- Leaving out elements does not make a list longer. -/
lemma length_filterMap_le {α β : Type} {f g : α → Option β} {l : List α}
    (h : ∀ a ∈ l, g a = none ∨ g a = f a) : (l.filterMap g).length ≤ (l.filterMap f).length := by
  induction l with
  | nil => simp
  | cons a l ih =>
    have hl := ih fun b hb => h b (List.mem_cons_of_mem _ hb)
    rcases h a List.mem_cons_self with ha | ha
    · cases hf : f a with
      | none => simpa [List.filterMap_cons, ha, hf] using hl
      | some b =>
        simp only [List.filterMap_cons, ha, hf, List.length_cons]
        omega
    · cases hf : f a with
      | none => simpa [List.filterMap_cons, ha, hf] using hl
      | some b => simpa [List.filterMap_cons, ha, hf] using hl

/-- The list stays the same only if nothing is left out. -/
lemma filterMap_eq_filterMap_iff {α β : Type} {f g : α → Option β} {l : List α}
    (h : ∀ a ∈ l, g a = none ∨ g a = f a) :
    l.filterMap g = l.filterMap f ↔ ∀ a ∈ l, g a = f a := by
  refine ⟨fun heq => ?_, fun heq => List.filterMap_congr heq⟩
  induction l with
  | nil => simp
  | cons a l ih =>
    have htail := fun b hb => h b (List.mem_cons_of_mem a hb)
    have ha : g a = f a := by
      rcases h a List.mem_cons_self with ha | ha
      · cases hf : f a with
        | none => rw [ha]
        | some b =>
          have hlen := length_filterMap_le htail
          have heq' := congrArg List.length heq
          simp only [List.filterMap_cons, ha, hf, List.length_cons] at heq'
          omega
      · exact ha
    have hrest : l.filterMap g = l.filterMap f := by
      simp only [List.filterMap_cons, ha] at heq
      cases hf : f a with
      | none => simpa [hf] using heq
      | some b => simpa [hf] using heq
    intro b hb
    rcases List.mem_cons.mp hb with rfl | hb
    · exact ha
    · exact ih htail hrest b hb

/-! ### The lines of a turn -/

/-- The lines `finish` adds. -/
def lines (now : ℕ) (x : Task) (result : Except String Unit) : List Obs :=
  match result with
  | .ok _ => [.completed x, .returned x result]
  | .error e =>
    match Dispatcher.rescheduleDelay x.kind e with
    | some delay => [.completed x, .rescheduling x (u64 (now + delay)), .returned x result]
    | none => [.returned x result]

lemma log_finish (w : World) : (Dispatcher.finish now x result w).log =
    lines now x result ++ w.log := by
  rw [Dispatcher.log_finish]
  unfold lines
  rcases result with e | ⟨⟩
  · cases hdelay : Dispatcher.rescheduleDelay x.kind e <;> simp [hdelay]
  · rfl

lemma resultOf_lines : resultOf (lines now x result ++ log) task =
    if task = x then some result else resultOf log task := by
  by_cases hx : task = x
  · subst hx
    unfold lines
    rcases result with e | ⟨⟩
    · cases hdelay : Dispatcher.rescheduleDelay task.kind e <;>
        simp [resultOf, hdelay]
    · simp [resultOf]
  · unfold lines
    rcases result with e | ⟨⟩
    · cases hdelay : Dispatcher.rescheduleDelay x.kind e <;>
        simp [resultOf, hdelay, hx, Ne.symm hx]
    · simp [resultOf, hx, Ne.symm hx]

lemma scheduled_lines : scheduled (lines now x result ++ log) = scheduled log := by
  unfold lines
  rcases result with e | ⟨⟩
  · cases hdelay : Dispatcher.rescheduleDelay x.kind e <;> simp [scheduled, hdelay]
  · simp [scheduled]

/-- What a turn logs before its result. -/
def started (x : Task) (fs : List Task) : List Obs :=
  fs.reverse.map Obs.scheduling ++ [.executing x]

lemma resultOf_started {fs : List Task} :
    resultOf (started x fs ++ log) task = resultOf log task := by
  have hfs : (fs.reverse.map Obs.scheduling).findSome? (fun
      | .returned t result => if t = task then some result else none
      | _ => none) = none := by
    rw [List.findSome?_eq_none_iff]
    intro o ho
    obtain ⟨f, -, rfl⟩ := List.mem_map.mp ho
    rfl
  rw [resultOf, started, List.append_assoc, List.findSome?_append, hfs]
  rfl

lemma scheduled_started {fs : List Task} :
    scheduled (started x fs ++ log) = scheduled log ++ fs := by
  have hfs : (fs.reverse.map Obs.scheduling).filterMap (fun
      | .scheduling t => some t
      | _ => none) = fs.reverse := by
    rw [List.filterMap_map]
    exact List.filterMap_some
  rw [scheduled, started, List.append_assoc, List.filterMap_append, hfs, List.reverse_append,
    List.reverse_reverse]
  rfl

end

/-! ### A turn -/

section
variable {rely : World → World → Prop} {route : Route} {now : ℕ} {x : Task} {s t u : World}
  {l m : List ((q : Query) × q.Answer)} {runs : List (Task × Except String Unit)} {new : List Obs}
  {result : Except String Unit}

/-- A turn has the exchanges of its body, and nobody comes between its last writes. -/
lemma talks_processTask
    (h : (Dispatcher.processTask route now x).Talks rely s l (.ok ()) t) : ∃ result w,
    (Dispatcher.body route x now).run.Talks rely (s.note (.executing x)) l (.ok result) w ∧
      t = Dispatcher.finish now x result w := by
  rw [Dispatcher.processTask, Dispatcher.executeTask] at h
  simp only [bind_assoc] at h
  obtain ⟨⟨⟩, v, l₁, l₂, rfl, ⟨rfl, -, rfl⟩, h⟩ | ⟨e, he, -⟩ := Prog.talks_bind.mp h
  swap
  · cases he
  obtain ⟨result, w, l₃, l₄, rfl, hbody, h⟩ | ⟨e, he, -⟩ := Prog.talks_bind.mp h
  swap
  · cases he
  have hdone : l₄ = [] ∧ t = Dispatcher.finish now x result w := by
    rcases result with e | ⟨⟩
    · unfold Dispatcher.finish
      rcases hdelay : Dispatcher.rescheduleDelay x.kind e with _ | delay
      · simp only [hdelay] at h ⊢
        exact ⟨h.1, h.2.2⟩
      · simp only [hdelay] at h ⊢
        exact ⟨h.1, h.2.2⟩
    · exact ⟨h.1, h.2.2⟩
  obtain ⟨rfl, rfl⟩ := hdone
  rw [List.nil_append, List.append_nil]
  exact ⟨result, w, hbody, rfl⟩

/-- The dispatcher with nobody else around. -/
abbrev alone : Protocol Unit World Panic Query.Answer :=
  .disturbed Eq (fun _ _ _ => True) fun _ _ => True

lemma reads (J : World → Prop) (e : ℕ) : Reads alone () J e where
  rely _ _ hJ ht _ := ht ▸ hJ
  issue _ _ _ _ _ := trivial
  fault _ _ _ _ _ := trivial
  none _ _ _ _ := trivial
  many _ _ _ := trivial

/-- The tasks a body may schedule for the epoch of its task. -/
def FollowUp (x f : Task) : Prop :=
  x.kind = .validateClaim ∧ f.epoch = x.epoch ∧
    (f.kind = .startVerification ∨ f.kind = .challenge)

lemma executor (s : World) (route : Route) (x : Task) : Dispatcher.Executor alone ()
    (fun t => t = s) route x (fun _ => True) fun _ _ => True :=
  .free (reads _ x.epoch).toPatient (fun _ _ => trivial) (fun _ => reads _ _) (fun _ => trivial)
    fun _ => trivial

/-- What a body does to the queue and the log. -/
lemma talks_body (h : (Dispatcher.body route x now).run.Talks Eq s l (.ok result) t) :
    t = s ∨ t = s.removeClaim x.epoch ∨ ∃ f, FollowUp x f ∧ t = s.addTask f := by
  have hbody : (Dispatcher.body route x now).run.wp alone () (fun _ t =>
      t = s ∨ t = s.removeClaim x.epoch ∨ ∃ f, FollowUp x f ∧ t = s.addTask f) s := by
    refine Dispatcher.wp_body (executor s route x) trivial rfl ?_ ?_ ?_
    · exact fun _ t _ ht _ => .inl ht
    · rintro hv claimed root n t - rfl - -
      have hf : FollowUp x ⟨x.epoch, n, Dispatcher.verdict claimed root⟩ :=
        ⟨hv, rfl, Dispatcher.verdict_eq claimed root⟩
      exact ⟨trivial, trivial, .inr (.inr ⟨_, hf, rfl⟩)⟩
    · rintro - t - rfl
      exact ⟨trivial, trivial, .inr (.inl rfl)⟩
  exact Prog.wp_talks (P := alone) (R := fun _ t => t = s ∨ t = s.removeClaim x.epoch ∨
    ∃ f, FollowUp x f ∧ t = s.addTask f) hbody (fun _ _ h => ⟨h, trivial⟩) (fun _ _ _ => trivial) h

/-- No two tasks of one kind for one epoch, and no verdict beside the `ValidateClaim` task that
is to give it. -/
structure Orderly (w : World) : Prop where
  keys : (w.schedule.tasks.map Task.key).Nodup
  verdict : ∀ e, w.Queued e .validateClaim → ¬w.Queued e .challenge ∧ ¬w.Queued e .startVerification

/-- The bodies of these tasks have returned these results, one after the other from `s` on, with the
exchanges `l`: each starts behind its own line, and the next one after the writes of its turn. -/
inductive Executed (route : Route) (now : ℕ) (s : World) :
    List (Task × Except String Unit) → List ((q : Query) × q.Answer) → World → Prop
  | nil : Executed route now s [] [] s
  | snoc {runs : List (Task × Except String Unit)} {l m : List ((q : Query) × q.Answer)} {t u : World}
      {x : Task} {result : Except String Unit} (h : Executed route now s runs l t)
      (hbody : (Dispatcher.body route x now).run.Talks Eq (t.note (.executing x)) m (.ok result) u) :
      Executed route now s (runs ++ [(x, result)]) (l ++ m) (Dispatcher.finish now x result u)

/-- These tasks of the queue of `s` have been executed, and `new` is what was logged. -/
structure Inv (route : Route) (now : ℕ) (s : World) (runs : List (Task × Except String Unit))
    (l : List ((q : Query) × q.Answer)) (new : List Obs) (t : World) : Prop where
  executed : Executed route now s runs l t
  log : t.log = new ++ s.log
  results : ∀ task result, resultOf new task = some result ↔ (task, result) ∈ runs
  followUps : ∀ f ∈ scheduled new, s.Queued f.epoch .validateClaim ∧
    (f.kind = .startVerification ∨ f.kind = .challenge)
  tasks : t.schedule.tasks = s.schedule.tasks.filterMap (kept new) ++ scheduled new

lemma Inv.resultOf_eq_none (h : Inv route now s runs l new t) (hx : x ∉ runs.map Prod.fst) :
    resultOf new x = none := by
  cases hres : resultOf new x with
  | none => rfl
  | some result => exact absurd (List.mem_map_of_mem ((h.results x result).mp hres)) hx

/-- Removing a task that was done takes it and nothing else from the old queue. -/
lemma erase_filterMap_kept (ho : Orderly s) (hx : x ∈ s.schedule.tasks) {new' : List Obs}
    (hother : ∀ task, task ≠ x → kept new' task = kept new task) (hdone : kept new' x = none) :
    Keyed.erase Task.key x.key (s.schedule.tasks.filterMap (kept new)) =
      s.schedule.tasks.filterMap (kept new') := by
  rw [Keyed.erase, List.filter_filterMap]
  refine List.filterMap_congr fun task htask => ?_
  by_cases hne : task = x
  · subst hne
    rw [hdone]
    rcases kept_eq_none_or new task with h | h
    · rw [h]
      rfl
    · rw [h]
      simp
  · have hkey : task.key ≠ x.key := fun h =>
      hne (List.inj_on_of_nodup_map ho.keys htask hx h)
    rw [hother task hne]
    rcases kept_eq_none_or new task with h | h
    · rw [h]
      rfl
    · rw [h]
      simp [hkey]

/-- No follow-up has the key of an old task. -/
lemma erase_followUps (ho : Orderly s) (hx : x ∈ s.schedule.tasks) {l : List Task}
    (hl : ∀ f ∈ l, s.Queued f.epoch .validateClaim ∧
      (f.kind = .startVerification ∨ f.kind = .challenge)) : Keyed.erase Task.key x.key l = l := by
  rw [Keyed.erase, List.filter_eq_self]
  intro f hf
  obtain ⟨hv, hkind⟩ := hl f hf
  obtain ⟨hc, hs⟩ := ho.verdict f.epoch hv
  have hq := World.queued_of_mem hx
  rw [decide_eq_true_eq]
  intro hkey
  obtain ⟨he, hk⟩ : f.epoch = x.epoch ∧ f.kind.name = x.kind.name := Prod.mk.injEq _ _ _ _ ▸ hkey
  rw [← he, ← hk] at hq
  rcases hkind with hkind | hkind
  · rw [hkind] at hq
    exact hs hq
  · rw [hkind] at hq
    exact hc hq

/-- A turn keeps the invariant, with its task done. -/
lemma inv_finish (ho : Orderly s) (h : Inv route now s runs l new t) (hx : x ∈ s.schedule.tasks)
    (hxd : x ∉ runs.map Prod.fst)
    (hbody : (Dispatcher.body route x now).run.Talks Eq (t.note (.executing x)) m (.ok result) u)
    (fs : List Task) (hfs : ∀ f ∈ fs, FollowUp x f) (hlog : u.log = started x fs ++ t.log)
    (htasks : u.schedule.tasks = t.schedule.tasks ++ fs) : ∃ new',
    Inv route now s (runs ++ [(x, result)]) (l ++ m) new' (Dispatcher.finish now x result u) := by
  have hfollow : ∀ f ∈ scheduled new ++ fs, s.Queued f.epoch .validateClaim ∧
      (f.kind = .startVerification ∨ f.kind = .challenge) := by
    intro f hf
    rcases List.mem_append.mp hf with hf | hf
    · exact h.followUps f hf
    · obtain ⟨hv, he, hkind⟩ := hfs f hf
      have hq := World.queued_of_mem hx
      rw [hv, ← he] at hq
      exact ⟨hq, hkind⟩
  have hresult : ∀ task, resultOf (lines now x result ++ (started x fs ++ new)) task =
      if task = x then some result else resultOf new task := fun task => by
    rw [resultOf_lines, resultOf_started]
  have hnone := h.resultOf_eq_none hxd
  refine ⟨lines now x result ++ (started x fs ++ new), h.executed.snoc hbody, ?_,
    fun task result' => ?_, ?_, ?_⟩
  · rw [log_finish, hlog, h.log]
    simp only [List.append_assoc]
  · rw [hresult, List.mem_append, List.mem_singleton, ← h.results]
    by_cases hne : task = x
    · subst hne
      simp [hnone, eq_comm]
    · simp [hne]
  · rw [scheduled_lines, scheduled_started]
    exact hfollow
  · have hother : ∀ task, task ≠ x →
        kept (lines now x result ++ (started x fs ++ new)) task = kept new task := by
      intro task hne
      rw [kept, kept, hresult, if_neg hne]
    have hself : kept (lines now x result ++ (started x fs ++ new)) x =
        if Dispatcher.completes x result then none else some x := by
      rw [kept, hresult, if_pos rfl]
    rw [scheduled_lines, scheduled_started, Dispatcher.tasks_finish, htasks, h.tasks,
      List.append_assoc]
    by_cases hdone : Dispatcher.completes x result = true
    · rw [if_pos hdone] at hself ⊢
      have hold := erase_filterMap_kept ho hx hother hself
      have hnew := erase_followUps ho hx hfollow
      unfold Keyed.erase at hold hnew ⊢
      rw [List.filter_append, hold, hnew]
    · rw [if_neg hdone] at hself ⊢
      have hsame : s.schedule.tasks.filterMap (kept new) = s.schedule.tasks.filterMap
          (kept (lines now x result ++ (started x fs ++ new))) := by
        refine List.filterMap_congr fun task _ => ?_
        by_cases hne : task = x
        · subst hne
          rw [hself, kept, hnone]
        · rw [hother task hne]
      rw [hsame]

lemma inv_turn (ho : Orderly s) (h : Inv route now s runs l new t) (hx : x ∈ s.schedule.tasks)
    (hxd : x ∉ runs.map Prod.fst)
    (hturn : (Dispatcher.processTask route now x).Talks Eq t m (.ok ()) u) :
    ∃ result new', Inv route now s (runs ++ [(x, result)]) (l ++ m) new' u := by
  obtain ⟨result, w, hbody, rfl⟩ := talks_processTask hturn
  refine ⟨result, ?_⟩
  rcases talks_body hbody with rfl | rfl | ⟨f, hf, rfl⟩
  · exact inv_finish ho h hx hxd hbody [] nofun rfl (List.append_nil _).symm
  · exact inv_finish ho h hx hxd hbody [] nofun rfl (List.append_nil _).symm
  · refine inv_finish ho h hx hxd hbody [f] (fun f' hf' => ?_) rfl rfl
    rwa [List.mem_singleton.mp hf']

/-! ### A pass -/

lemma inv_start : Inv route now s [] [] [] s where
  executed := .nil
  log := rfl
  results _ _ := ⟨nofun, nofun⟩
  followUps := nofun
  tasks := by
    have hkept : ∀ task ∈ s.schedule.tasks, kept [] task = some task := fun _ _ => rfl
    rw [List.filterMap_congr hkept, List.filterMap_some]
    exact (List.append_nil _).symm

/-- The turns over some tasks of the queue, none of which has had its turn yet. -/
lemma inv_turns (ho : Orderly s) {tasks : List Task} (h : Inv route now s runs l new t)
    (hnodup : tasks.Nodup) (htasks : ∀ x ∈ tasks, x ∈ s.schedule.tasks ∧ x ∉ runs.map Prod.fst)
    (hturns : (forM tasks (Dispatcher.processTask route now)).Talks Eq t m (.ok ()) u) :
    ∃ runs' new', runs'.map Prod.fst = runs.map Prod.fst ++ tasks ∧
      Inv route now s runs' (l ++ m) new' u := by
  induction tasks generalizing runs l new t m with
  | nil =>
    obtain ⟨rfl, -, rfl⟩ := hturns
    rw [List.append_nil, List.append_nil]
    exact ⟨runs, new, rfl, h⟩
  | cons x tasks ih =>
    obtain ⟨hx, hxd⟩ := htasks x List.mem_cons_self
    obtain ⟨hxl, hnodup'⟩ := List.nodup_cons.mp hnodup
    rw [List.forM_cons] at hturns
    obtain ⟨⟨⟩, v, l₁, l₂, rfl, hturn, hrest⟩ | ⟨e, he, -⟩ := Prog.talks_bind.mp hturns
    swap
    · cases he
    obtain ⟨result, new', h'⟩ := inv_turn ho h hx hxd hturn
    have hdone : (runs ++ [(x, result)]).map Prod.fst = runs.map Prod.fst ++ [x] := List.map_append
    have hleft : ∀ y ∈ tasks, y ∈ s.schedule.tasks ∧ y ∉ (runs ++ [(x, result)]).map Prod.fst := by
      intro y hy
      obtain ⟨hys, hyd⟩ := htasks y (List.mem_cons_of_mem _ hy)
      rw [hdone, List.mem_append, List.mem_singleton]
      exact ⟨hys, fun h => h.elim hyd fun heq => hxl (heq ▸ hy)⟩
    obtain ⟨runs', new'', hruns, h''⟩ := ih h' hnodup' hleft hrest
    rw [List.append_assoc] at h''
    rw [hdone, List.append_assoc] at hruns
    exact ⟨runs', new'', hruns, h''⟩

/-- **A pass does what it should unless it reschedules.** Let a pass run to its end on an orderly
queue with nobody else writing. Off sync it asks for nothing, and without a block it asks for nothing
else; in both cases it leaves everything as it is. Otherwise it executes the tasks that are due at
the block, and their results are what it logs. The queue the pass leaves holds, of every old task,
what is due to it by its result, and the follow-ups behind them, if and only if no body has returned
an error that `executeTask` answers with a reschedule. -/
theorem pass_exact_iff (route : Route) (ho : Orderly s)
    (h : (Dispatcher.processPending route).Talks Eq s l (.ok ()) t) :
    (t = s ∧ (s.schedule.onSync = false ∧ l = [] ∨ s.schedule.onSync = true ∧
      ∃ a, l = [⟨.blockByNumber .outbox .latest, a⟩] ∧ ∀ block, a ≠ .ok (some block))) ∨
    ∃ block rest runs new, s.schedule.onSync = true ∧
      l = ⟨.blockByNumber .outbox .latest, .ok (some block)⟩ :: rest ∧ t.log = new ++ s.log ∧
      runs.map Prod.fst = s.schedule.tasks.filter (fun x => block.timestamp ≥ x.executeAfter) ∧
      Executed route block.timestamp s runs rest t ∧
      (∀ task result, resultOf new task = some result ↔ (task, result) ∈ runs) ∧
      (∀ f ∈ scheduled new, s.Queued f.epoch .validateClaim ∧
        (f.kind = .startVerification ∨ f.kind = .challenge)) ∧
      (t.schedule.tasks =
          s.schedule.tasks.filterMap (fate block.timestamp new) ++ scheduled new ↔
        ∀ task ∈ s.schedule.tasks, ∀ e, resultOf new task = some (.error e) →
          Dispatcher.rescheduleDelay task.kind e = none) := by
  rw [Dispatcher.processPending] at h
  obtain ⟨sync, v, l₁, l₂, rfl, ⟨rfl, hsync, rfl⟩, hrest⟩ | ⟨e, he, -⟩ := Prog.talks_bind.mp h
  swap
  · cases he
  obtain rfl : sync = v.schedule.onSync := Except.ok.inj hsync
  cases hon : v.schedule.onSync with
  | false =>
    rw [hon] at hrest
    exact .inl ⟨hrest.2.2, .inl ⟨rfl, hrest.1⟩⟩
  | true =>
    rw [hon] at hrest
    obtain ⟨u, rfl, a, rest, rfl, hpass⟩ := hrest
    rcases a with e | _ | block
    · obtain ⟨rfl, -, rfl⟩ := hpass
      exact .inl ⟨rfl, .inr ⟨rfl, _, rfl, fun _ heq => by cases heq⟩⟩
    · obtain ⟨rfl, -, rfl⟩ := hpass
      exact .inl ⟨rfl, .inr ⟨rfl, _, rfl, fun _ heq => by cases heq⟩⟩
    · have hdue : ∀ x ∈ v.schedule.tasks.filter fun x => block.timestamp ≥ x.executeAfter,
          x ∈ v.schedule.tasks ∧ x ∉ ([] : List Task) := fun x hx =>
        ⟨List.mem_of_mem_filter hx, List.not_mem_nil⟩
      obtain ⟨runs, new, hruns, hinv⟩ :=
        inv_turns ho inv_start ((List.Nodup.of_map _ ho.keys).filter _) hdue hpass
      refine .inr ⟨block, rest, runs, new, rfl, rfl, hinv.log, hruns, hinv.executed, hinv.results,
        hinv.followUps, ?_⟩
      rw [hinv.tasks, List.append_cancel_right_eq,
        filterMap_eq_filterMap_iff fun task _ => kept_eq_none_or_fate]
      exact forall₂_congr fun task _ => kept_eq_fate_iff

end

/-! ### Two passes -/

/-- A task of epoch 5 is due, whose claim is stored with the root 2, and a later one is not. -/
def sampleQueue (kind : TaskKind) : World where
  schedule := { tasks := [⟨5, 0, kind⟩, ⟨6, 200, .saveSnapshot⟩], onSync := true }
  claims := [ClaimData.fresh 5 2 9 30]

/-- The nodes are at time 100, where every root is 1, and the wallet is empty. -/
def afterPass (kind : TaskKind) : Except Panic Unit × World :=
  (Dispatcher.processPending Sample.route).eval (Sample.node 100 0) (sampleQueue kind)

lemma talks_afterPass {kind : TaskKind} (h : (afterPass kind).1 = .ok ()) :
    (Dispatcher.processPending Sample.route).Talks Eq (sampleQueue kind)
      ((Dispatcher.processPending Sample.route).exchanges (Sample.node 100 0) (sampleQueue kind))
      (.ok ()) (afterPass kind).2 := by
  rw [← h]
  exact Prog.talks_exchanges (fun _ => rfl) _ _ _

lemma queued_sampleQueue {kind : TaskKind} {e : ℕ} {k : KindName} : (sampleQueue kind).Queued e k ↔
    e = 5 ∧ k = kind.name ∨ e = 6 ∧ k = .saveSnapshot := by
  simp [World.Queued, sampleQueue, Task.key, TaskKind.name]

lemma orderly_sampleQueue (kind : TaskKind) : Orderly (sampleQueue kind) where
  keys := by simp [sampleQueue, Task.key]
  verdict e hv := by
    rw [queued_sampleQueue] at hv
    rw [queued_sampleQueue, queued_sampleQueue]
    rcases hv with ⟨rfl, hk⟩ | ⟨-, hk⟩
    · simp [← hk]
    · cases hk

/-- A verdict is given, and replaces the task that gave it. -/
theorem pass_exact_iff_sample : ∃ new, (afterPass .validateClaim).2.log = new ∧
    (afterPass .validateClaim).2.schedule.tasks =
      (sampleQueue .validateClaim).schedule.tasks.filterMap (fate 100 new) ++ scheduled new := by
  obtain ⟨hsame, -⟩ | ⟨block, rest, runs, new, -, hl, hlog, -, -, -, -, hiff⟩ := pass_exact_iff Sample.route
    (orderly_sampleQueue .validateClaim) (talks_afterPass (by decide +kernel))
  · have hne : (afterPass .validateClaim).2.log ≠ (sampleQueue .validateClaim).log := by
      decide +kernel
    rw [hsame] at hne
    exact absurd rfl hne
  have hnew : (afterPass .validateClaim).2.log = new := hlog.trans (List.append_nil new)
  obtain rfl : (⟨10, 100⟩ : Header) = block := by
    obtain ⟨hx, -⟩ := List.cons.inj hl
    cases hx
    rfl
  refine ⟨new, hnew, hiff.mpr fun task htask e he => ?_⟩
  have hok : ∀ task ∈ (sampleQueue .validateClaim).schedule.tasks,
      resultOf (afterPass .validateClaim).2.log task = some (.ok ()) ∨
        resultOf (afterPass .validateClaim).2.log task = none := by decide +kernel
  rw [hnew] at hok
  rcases hok task htask with h | h
  · rw [h] at he
    cases he
  · rw [h] at he
    cases he

/-- A challenge without funds should be tried again in half an hour, and is gone. -/
theorem rescheduled_lost : Orderly (sampleQueue .challenge) ∧
    (∃ l, (Dispatcher.processPending Sample.route).Talks Eq (sampleQueue .challenge) l (.ok ())
      (afterPass .challenge).2) ∧
    resultOf (afterPass .challenge).2.log ⟨5, 0, .challenge⟩ =
      some (.error "Insufficient funds") ∧
    Dispatcher.rescheduleDelay .challenge "Insufficient funds" = some 1800 ∧
    ⟨5, 1900, .challenge⟩ ∉ (afterPass .challenge).2.schedule.tasks :=
  ⟨orderly_sampleQueue .challenge, ⟨_, talks_afterPass (by decide +kernel)⟩, by decide +kernel,
    by decide +kernel, by decide +kernel⟩

end Pass

end VeaValidator
