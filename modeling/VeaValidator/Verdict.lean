import VeaValidator.Interleaving
import VeaValidator.Writes

/-!
The verdict on a claim.

`validate_claim` compares the root of the stored claim with the inbox's and queues a `Challenge`
or a `StartVerification` task. The tasks stay in the queue for hours, over crashes and repeated
logs, and still speak of the same claim: an epoch has one `Claimed` log, so one root.
-/

namespace VeaValidator

open Coop

namespace Verdict

variable (rootOf snap : ℕ → Word)

/-- `rootOf e` is the root epoch `e` was claimed with, `snap e` the right one. -/
structure Inv (w : World) : Prop where
  root : ∀ e d, w.claim? e = some d → d.stateRoot = rootOf e
  challenge : ∀ e, w.Queued e .challenge → rootOf e ≠ snap e
  start : ∀ e, w.Queued e .startVerification → rootOf e = snap e

variable {rootOf snap} {s t : World} {e : ℕ}

/-- A write that makes up no root and queues no verdict. -/
lemma Inv.mono (h : Inv rootOf snap s)
    (hclaim : ∀ e d, t.claim? e = some d → ∃ d', s.claim? e = some d' ∧ d'.stateRoot = d.stateRoot)
    (hqueue : ∀ e k, k = .challenge ∨ k = .startVerification → t.Queued e k → s.Queued e k) :
    Inv rootOf snap t := by
  refine ⟨fun e d hd => ?_, fun e hq => h.challenge e (hqueue e _ (.inl rfl) hq),
    fun e hq => h.start e (hqueue e _ (.inr rfl) hq)⟩
  obtain ⟨d', hd', hroot⟩ := hclaim e d hd
  rw [← hroot]
  exact h.root e d' hd'

lemma Inv.of_claim? (h : Inv rootOf snap s) (hclaim : ∀ e, t.claim? e = s.claim? e)
    (hqueue : ∀ e k, k = .challenge ∨ k = .startVerification → t.Queued e k → s.Queued e k) :
    Inv rootOf snap t :=
  h.mono (fun e d hd => ⟨d, by rw [← hclaim e, hd], rfl⟩) hqueue

lemma inv_note {o : Obs} (h : Inv rootOf snap s) : Inv rootOf snap (s.note o) :=
  h.of_claim? (fun _ => rfl) fun _ _ _ hq => hq

lemma inv_addTask {task : Task} (h : Inv rootOf snap s)
    (hc : task.kind = .challenge → rootOf task.epoch ≠ snap task.epoch)
    (hs : task.kind = .startVerification → rootOf task.epoch = snap task.epoch) :
    Inv rootOf snap (s.addTask task) := by
  refine ⟨fun e d hd => h.root e d hd, fun e hq => ?_, fun e hq => ?_⟩
  · rcases (World.queued_addTask _ _ _ _).mp hq with hq | ⟨rfl, hk⟩
    · exact h.challenge e hq
    · exact hc (TaskKind.eq_challenge hk.symm)
  · rcases (World.queued_addTask _ _ _ _).mp hq with hq | ⟨rfl, hk⟩
    · exact h.start e hq
    · exact hs (TaskKind.eq_startVerification hk.symm)

/-- A task that is no verdict. -/
lemma inv_addOther (task : Task) (h : Inv rootOf snap s) (hc : task.kind.name ≠ .challenge)
    (hs : task.kind.name ≠ .startVerification) : Inv rootOf snap (s.addTask task) :=
  inv_addTask h (fun hk => absurd (by rw [hk]; rfl) hc) fun hk => absurd (by rw [hk]; rfl) hs

lemma inv_storeClaim {c : ClaimData} (h : Inv rootOf snap s) (hc : c.stateRoot = rootOf c.epoch) :
    Inv rootOf snap (s.storeClaim c) := by
  refine ⟨fun e d hd => ?_, h.challenge, h.start⟩
  rw [World.claim?_storeClaim] at hd
  rcases hs : s.claim? e with _ | d'
  · by_cases he : c.epoch = e
    · subst he
      simp only [hs, if_true, Option.none_or, Option.some.injEq] at hd
      rw [← hd, hc]
    · simp [hs, he] at hd
  · simp only [hs, Option.some_or, Option.some.injEq] at hd
    rw [← hd]
    exact h.root e d' hs

lemma inv_updateClaim (e : ℕ) (f : ClaimData → ClaimData) (h : Inv rootOf snap s)
    (hf : ∀ c, (f c).epoch = c.epoch) (hroot : ∀ c, (f c).stateRoot = c.stateRoot) :
    Inv rootOf snap (s.updateClaim e f) := by
  refine h.mono (fun e' d hd => ?_) fun _ _ _ hq => hq
  rw [World.claim?_updateClaim s e' e f hf] at hd
  by_cases he : e' = e
  · subst he
    simp only [if_true, Option.map_eq_some_iff] at hd
    obtain ⟨d', hd', rfl⟩ := hd
    exact ⟨d', hd', (hroot d').symm⟩
  · exact ⟨d, by simpa [he] using hd, rfl⟩

lemma inv_invalidateTasks (e : ℕ) (ks : List KindName) (h : Inv rootOf snap s) :
    Inv rootOf snap (s.invalidateTasks e ks) :=
  h.of_claim? (fun _ => rfl) fun _ _ _ hq => ((World.queued_invalidateTasks _ _ _ _ _).mp hq).1

lemma inv_removeTask {task : Task} (h : Inv rootOf snap s) : Inv rootOf snap (s.removeTask task) :=
  h.of_claim? (fun _ => rfl) fun _ _ _ hq => ((World.queued_removeTask _ _ _ _).mp hq).1

lemma inv_rescheduleTask {task : Task} {n : ℕ} (h : Inv rootOf snap s) :
    Inv rootOf snap (s.rescheduleTask task n) :=
  h.of_claim? (fun _ => rfl) fun _ _ _ hq => (World.queued_rescheduleTask _ _ _ _ _).mp hq

lemma inv_finish {now : ℕ} {task : Task} {result : Except String Unit} (h : Inv rootOf snap s) :
    Inv rootOf snap (Dispatcher.finish now task result s) :=
  h.of_claim? (fun _ => by simp) fun _ _ _ hq =>
    ((Dispatcher.queued_finish _ _ _ _ _ _).mp hq).1

lemma inv_removeClaim (h : Inv rootOf snap s) : Inv rootOf snap (s.removeClaim e) := by
  refine h.mono (fun e' d hd => ?_) fun _ _ _ hq => hq
  rw [World.claim?_removeClaim] at hd
  split at hd
  · cases hd
  · exact ⟨d, hd, rfl⟩

/-! ### The protocol -/

variable (snap) in
/-- No challenge of a right claim, and no verification of a wrong one. -/
def SentRightly (q : Query) : Prop :=
  match q with
  | .send (.challenge e c _) => c.stateRoot ≠ snap e
  | .send (.startVerification e c) => c.stateRoot = snap e
  | _ => True

variable (rootOf snap) in
/-- The invariant holds after every write, so it outlives a crash. -/
@[simps]
def protocol : Protocol Role World Panic Query.Answer where
  inv := Inv rootOf snap
  durable := Inv rootOf snap
  rely _ _ _ := True
  guar _ _ _ := True
  answer := SnapshotsAre snap
  issue _ q _ := SentRightly snap q
  fault _ _ _ := True

lemma patient (i : Role) : Patient (protocol rootOf snap) i fun _ => True where
  rely _ _ _ _ _ := trivial
  issue q _ hq _ _ := by
    cases q with
    | send tx => exact hq.elim
    | _ => trivial
  fault _ _ _ _ _ := trivial

lemma reads (i : Role) (e : ℕ) : Reads (protocol rootOf snap) i (fun _ => True) e :=
  { patient i with none := fun _ _ _ _ => trivial, many := fun _ _ _ => trivial }

/-- What a handler writes keeps the invariant, when the root of a new claim is right. -/
lemma inv_write {event : Event} {t : World} (h : event.Write s t) (hI : Inv rootOf snap s)
    (hroot : ∀ e claimer root, event = .claimed e claimer root → root = rootOf e) :
    Inv rootOf snap t := by
  cases h with
  | store e claimer root ts hnew hnone => exact inv_storeClaim hI (hroot e claimer root rfl)
  | update hf => exact inv_updateClaim _ _ hI hf.epoch hf.stateRoot
  | clear _ ks => exact inv_invalidateTasks _ ks hI
  | queue _ n hsettled =>
    refine inv_addOther _ hI ?_ ?_
    · cases event <;> simp [Event.taskKind, TaskKind.name]
    · cases event <;> simp [Event.taskKind, TaskKind.name]

lemma inv_logWrite {target : ScanTarget} {log : Log} {t : World} (h : log.Write target s t)
    (hI : Inv rootOf snap s)
    (hroot : ∀ e claimer root, log.event? = some (.claimed e claimer root) → root = rootOf e) :
    Inv rootOf snap t := by
  cases h with
  | act event hev h => exact inv_write h hI fun e claimer root he => hroot e claimer root (he ▸ hev)
  | relay task hsig hepoch hkind =>
    exact inv_addOther task hI (by simp [hkind]) (by simp [hkind])
  | save n => exact hI.of_claim? (fun _ => rfl) fun _ _ _ hq => hq

lemma wp_handle {route : Route} {target : ScanTarget} {log : Log} (hI : Inv rootOf snap s)
    (hroot : ∀ e claimer root, log.event? = some (.claimed e claimer root) → root = rootOf e) :
    (Indexer.handle route target log).wp (protocol rootOf snap) .indexer
      (fun _ => Inv rootOf snap) s := by
  have hdispatch : Prog.Keeps (protocol rootOf snap) .indexer (fun _ => True)
      (Indexer.dispatch route target log) :=
    (confined_dispatch target log).keeps (patient .indexer) (fun t u hIt _ hw =>
      have hIu : Inv rootOf snap u := inv_logWrite hw hIt hroot
      ⟨trivial, hIu, hIu, trivial⟩) fun _ _ _ _ _ => trivial
  exact Indexer.wp_handle (hdispatch s hI trivial)
    fun t ht => ⟨trivial, inv_note ht.1, inv_note ht.1⟩

/-! ### The dispatcher -/

lemma clerk : Dispatcher.Clerk (protocol rootOf snap) .dispatcher where
  note _ _ _ h := ⟨trivial, inv_note h⟩
  reschedule _ _ _ h := ⟨trivial, inv_rescheduleTask h⟩
  remove _ _ h := ⟨trivial, inv_removeTask h⟩

variable (rootOf snap) in
/-- The verdicts in a list are right. -/
def AllRight (l : List Task) : Prop :=
  ∀ task ∈ l, (task.kind = .challenge → rootOf task.epoch ≠ snap task.epoch) ∧
    (task.kind = .startVerification → rootOf task.epoch = snap task.epoch)

/-- A challenge is sent for a wrong root and a verification is started for a right one. -/
lemma executor {route : Route} {task : Task} {l : List Task}
    (hL : AllRight rootOf snap (task :: l)) :
    Dispatcher.Executor (protocol rootOf snap) .dispatcher (fun _ => True) route task
      (fun c => c.stateRoot = rootOf task.epoch) fun root _ => root = rootOf task.epoch :=
  { patient .dispatcher with
    reads := fun _ => reads .dispatcher task.epoch
    unknownRoute := fun _ _ _ => trivial
    undetermined := fun _ _ _ _ _ _ _ => trivial
    claim := fun _ d hI _ hd => hI.root _ d hd
    root := fun _ d hI _ hd => hI.root _ d hd
    rootStays := fun _ _ _ hD _ _ _ => hD
    send := by
      intro tx s hsent hI _
      obtain ⟨hchallenge, hstart⟩ := hL task List.mem_cons_self
      cases tx with
      | challenge e c v =>
        obtain ⟨rfl, hk, hc⟩ := hsent
        show c.stateRoot ≠ snap task.epoch
        rw [hc]
        exact hchallenge hk
      | startVerification e c =>
        obtain ⟨rfl, hk, d, hd, -, rfl⟩ := hsent
        show d.stateRoot = snap task.epoch
        rw [hI.root _ d hd]
        exact hstart hk
      | _ => trivial
    withdraw := fun _ _ _ _ => ⟨trivial, trivial⟩ }

lemma wp_processTask {route : Route} {now : ℕ} {task : Task} {l : List Task}
    (hI : Inv rootOf snap s) (hL : AllRight rootOf snap (task :: l)) :
    (Dispatcher.processTask route now task).wp (protocol rootOf snap) .dispatcher
      (fun _ t => Inv rootOf snap t ∧ AllRight rootOf snap l) s := by
  have hLl : AllRight rootOf snap l := fun t ht => hL t (List.mem_cons_of_mem _ ht)
  refine Dispatcher.wp_processTask clerk hI (Dispatcher.wp_body (executor hL) (inv_note hI) trivial
    (fun result t hIt _ _ => ⟨hIt, inv_finish hIt, hLl⟩)
    (fun _ claimed root n t hIt _ hD ha => ?_) fun _ t hIt _ => ?_)
  · have hroot : root = snap task.epoch := ha
    have hIa : Inv rootOf snap (t.addTask ⟨task.epoch, n, Dispatcher.verdict claimed root⟩) := by
      rw [hD, hroot]
      by_cases heq : rootOf task.epoch = snap task.epoch
      · rw [Dispatcher.verdict, if_pos heq]
        exact inv_addTask hIt (fun hk => by cases hk) fun _ => heq
      · rw [Dispatcher.verdict, if_neg heq]
        exact inv_addTask hIt (fun _ => heq) fun hk => by cases hk
    exact ⟨trivial, hIa, hIa, inv_finish hIa, hLl⟩
  · have hIr := inv_removeClaim (e := task.epoch) hIt
    exact ⟨trivial, hIr, hIr, inv_finish hIr, hLl⟩

/-! ### The runs -/

/-- The epochs are claimed with the roots of `rootOf`. -/
def ClaimedWith (rootOf : ℕ → Word) (logs : List (ScanTarget × Log)) : Prop :=
  ∀ l ∈ logs, ∀ e claimer root, l.2.event? = some (.claimed e claimer root) → root = rootOf e

/-- Any logs of both chains, handled in any order and again after a crash. -/
def system (route : Route) (rootOf snap : ℕ → Word) : System Role World Panic Query.Answer :=
  handlerSystem route (ClaimedWith rootOf) (SnapshotsAre snap) Restarted

theorem covers (route : Route) (rootOf snap : ℕ → Word) :
    (protocol rootOf snap).Covers (system route rootOf snap) where
  rely_refl _ _ := trivial
  rely_trans _ _ _ _ _ _ := trivial
  guar_rely _ _ _ _ _ _ := trivial
  answer _ _ _ _ h := h
  env _ _ h := h.elim
  init s h := by
    refine ⟨fun e d hd => ?_, fun e hq => absurd hq (h.not_queued e _),
      fun e hq => absurd hq (h.not_queued e _)⟩
    rw [h.claim?] at hd
    cases hd
  boot i p s t hp _ _ hI := by
    cases i with
    | indexer =>
      obtain ⟨logs, hlogs, rfl⟩ := hp
      have hstep : ∀ target log l s, Inv rootOf snap s → ClaimedWith rootOf ((target, log) :: l) →
          (Indexer.handle route target log).wp (protocol rootOf snap) .indexer
            (fun _ t => Inv rootOf snap t ∧ ClaimedWith rootOf l) s := fun target log l s hIs hC =>
        Prog.wp_mono (fun _ t hIt => ⟨hIt, fun b hb => hC b (List.mem_cons_of_mem _ hb)⟩)
          (wp_handle hIs (hC _ List.mem_cons_self))
      exact Prog.wp_mono (fun _ t ht => ht.1) (Indexer.wp_deliver
        (L := fun l _ => ClaimedWith rootOf l) (fun _ _ => trivial) (fun _ _ _ h _ _ => h)
        hstep hI hlogs)
    | dispatcher =>
      obtain ⟨n, rfl⟩ := hp
      refine Dispatcher.wp_run (L := fun l _ => AllRight rootOf snap l) (patient .dispatcher)
        (fun s hIs task htask => ⟨fun hk => ?_, fun hk => ?_⟩) (fun _ _ _ h _ _ => h)
        (fun l p s hL t ht => hL t (List.mem_of_mem_filter ht))
        (fun now task l s hIs hL => wp_processTask hIs hL) n hI
      · exact hIs.challenge _ (by simpa [hk, TaskKind.name] using World.queued_of_mem htask)
      · exact hIs.start _ (by simpa [hk, TaskKind.name] using World.queued_of_mem htask)
  durable _ h := h
  restart s t h hr := by
    obtain ⟨onSync, rfl⟩ := hr
    exact h.of_claim? (fun _ => rfl) fun _ _ _ hq => hq

/-- **Every verdict is right.** In every run, whatever crashes and is repeated: a queued
`Challenge` is for a wrong root and a queued `StartVerification` for the right one, so an epoch
never has both; and no transaction of either kind is sent against its claim. -/
theorem verdicts_right (route : Route) (rootOf snap : ℕ → Word)
    {c : Config Role World Panic Query.Answer} (hc : (system route rootOf snap).Reachable c) :
    (∀ e d, c.store.claim? e = some d →
      (c.store.Queued e .challenge → d.stateRoot ≠ snap e) ∧
      (c.store.Queued e .startVerification → d.stateRoot = snap e)) ∧
    (∀ e, ¬(c.store.Queued e .challenge ∧ c.store.Queued e .startVerification)) ∧
    ∀ c' i, (system route rootOf snap).Step c (some i) c' → ∀ e claim,
      (∀ v, (c'.thread i).query? = some (.send (.challenge e claim v)) →
        claim.stateRoot ≠ snap e) ∧
      ((c'.thread i).query? = some (.send (.startVerification e claim)) →
        claim.stateRoot = snap e) := by
  have hP := covers route rootOf snap
  have hI := (hP.reachable hc).inv
  refine ⟨fun e d hd => ⟨fun hq => ?_, fun hq => ?_⟩, fun e hq => ?_,
    fun c' i hstep e claim => ⟨fun v hq => ?_, fun hq => ?_⟩⟩
  · rw [hI.root e d hd]
    exact hI.challenge e hq
  · rw [hI.root e d hd]
    exact hI.start e hq
  · exact hI.challenge e hq.1 (hI.start e hq.2)
  · exact hP.issues hc hstep hq
  · exact hP.issues hc hstep hq

/-! ### A run with a verdict -/

/-- A wrong claim, and a pass that judges it. -/
def judged : Config Role World Panic Query.Answer :=
  (Sample.start [(.outbox, Sample.claimed 5 2 3)]).play
    (Sample.times 1 .indexer (Sample.node 100 0) ++ Sample.times 4 .dispatcher (Sample.node 100 0))

lemma claimedWith_sample : ClaimedWith (fun _ => 2) [(.outbox, Sample.claimed 5 2 3)] := by
  intro l hl e claimer root hev
  obtain rfl := List.mem_singleton.mp hl
  have hev' : (Sample.claimed 5 2 3).event? = some (.claimed 5 9 2) := by decide
  rw [hev'] at hev
  cases hev
  rfl

lemma reachable_judged : (system Sample.route (fun _ => 2) fun _ => 1).Reachable judged :=
  Sample.reachable claimedWith_sample (Sample.node_of_mem_append
    (fun _ => Sample.node_of_mem_times) fun _ => Sample.node_of_mem_times) (by decide +kernel)

theorem verdicts_right_sample : judged.store.Queued 5 .challenge ∧
    ¬judged.store.Queued 5 .startVerification := by
  have hq : judged.store.Queued 5 .challenge := by decide +kernel
  exact ⟨hq, fun hs => (verdicts_right Sample.route (fun _ => 2) (fun _ => 1)
    reachable_judged).2.1 5 ⟨hq, hs⟩⟩

end Verdict

end VeaValidator
