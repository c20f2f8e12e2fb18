import VeaValidator.Epochs
import VeaValidator.Writes

/-!
A queued withdrawal has a settled claim.

`withdraw_deposit::execute` panics over a claim whose honest party is open. A claim is stored
with it open and only `handle_verified_event` decides it, right before it queues the
withdrawal. Whatever else happens, a claim can only be stored afresh when its epoch has no
task, so the withdrawal never comes to stand beside an open claim.
-/

namespace VeaValidator

open Coop

/-- The honest party is decided. -/
def ClaimData.Determined (c : ClaimData) : Prop := c.honest = "Claimer" ∨ c.honest = "Challenger"

lemma ClaimData.Determined.party {c : ClaimData} (h : c.Determined) :
    (c.honest = "Claimer" ∧ c.toClaim.honest = .claimer) ∨
      (c.honest = "Challenger" ∧ c.toClaim.honest = .challenger) := by
  rcases h with h | h
  · refine .inl ⟨h, ?_⟩
    rw [ClaimData.toClaim, h]
    rfl
  · refine .inr ⟨h, ?_⟩
    rw [ClaimData.toClaim, h]
    rfl

namespace Settlement

structure Inv (w : World) : Prop where
  settled : ∀ e d, w.Queued e .withdrawDeposit → w.claim? e = some d → d.Determined

variable {s t : World} {e : ℕ}

/-! ### The steps -/

/-- What changes no claim and queues no withdrawal. -/
lemma Inv.of_claim? (h : Inv s) (hclaim : ∀ e, t.claim? e = s.claim? e)
    (hqueued : ∀ e, t.Queued e .withdrawDeposit → s.Queued e .withdrawDeposit) : Inv t where
  settled e d hq hd := h.settled e d (hqueued e hq) ((hclaim e).symm.trans hd)

lemma inv_note {o : Obs} (h : Inv s) : Inv (s.note o) := h.of_claim? (fun _ => rfl) fun _ hq => hq

lemma inv_addTask {task : Task} (h : Inv s) (hk : task.kind.name ≠ .withdrawDeposit) :
    Inv (s.addTask task) := by
  refine h.of_claim? (fun _ => rfl) fun e hq => ?_
  rw [World.queued_addTask] at hq
  exact hq.resolve_right fun ha => hk ha.2.symm

lemma inv_removeTask {task : Task} (h : Inv s) : Inv (s.removeTask task) :=
  h.of_claim? (fun _ => rfl) fun _ hq => ((World.queued_removeTask _ _ _ _).mp hq).1

lemma inv_rescheduleTask {task : Task} {n : ℕ} (h : Inv s) : Inv (s.rescheduleTask task n) :=
  h.of_claim? (fun _ => rfl) fun _ hq => (World.queued_rescheduleTask _ _ _ _ _).mp hq

lemma inv_invalidateTasks {ks : List KindName} (h : Inv s) : Inv (s.invalidateTasks e ks) :=
  h.of_claim? (fun _ => rfl) fun _ hq => ((World.queued_invalidateTasks _ _ _ _ _).mp hq).1

lemma inv_removeClaim (h : Inv s) : Inv (s.removeClaim e) where
  settled e' d hq hd := by
    rw [World.claim?_removeClaim] at hd
    split at hd
    · cases hd
    · exact h.settled e' d hq hd

/-- A fresh claim is open, and its epoch has no task. -/
lemma inv_storeClaim {c : ClaimData} (h : Inv s)
    (hnone : ∀ task ∈ s.schedule.tasks, task.epoch ≠ c.epoch) : Inv (s.storeClaim c) where
  settled e d hq hd := by
    have hne : c.epoch ≠ e := by
      rintro rfl
      obtain ⟨task, hm, hkey⟩ := List.mem_map.mp hq
      exact hnone task hm (congrArg Prod.fst hkey)
    rw [World.claim?_storeClaim, if_neg hne, Option.or_none] at hd
    exact h.settled e d hq hd

/-- An update that leaves the honest party, or decides it. -/
lemma inv_updateClaim {f : ClaimData → ClaimData} (h : Inv s) (hf : ∀ c, (f c).epoch = c.epoch)
    (hhonest : ∀ c, (f c).honest = c.honest ∨ (f c).Determined) : Inv (s.updateClaim e f) where
  settled e' d hq hd := by
    rw [World.claim?_updateClaim _ _ _ _ hf] at hd
    split at hd
    · next he =>
      subst he
      obtain ⟨d', hd', rfl⟩ := Option.map_eq_some_iff.mp hd
      rcases hhonest d' with heq | hdet
      · rw [ClaimData.Determined, heq]
        exact h.settled e' d' hq hd'
      · exact hdet
    · exact h.settled e' d hq hd

/-- The withdrawal of a claim that is settled. -/
lemma inv_withdrawable {n : ℕ} (h : Inv s) (hdone : ∀ d, s.claim? e = some d → d.Determined) :
    Inv (s.addTask ⟨e, n, .withdrawDeposit⟩) where
  settled e' d hq hd := by
    rw [World.claim?_addTask] at hd
    rcases (World.queued_addTask _ _ _ _).mp hq with hq | ⟨rfl, -⟩
    · exact h.settled e' d hq hd
    · exact hdone d hd

lemma inv_storeOp (op : StoreOp) (h : Inv s) : Inv (op.run.burst s).1 := by
  cases op with
  | removeTask task => exact inv_removeTask h
  | rescheduleTask task n => exact inv_rescheduleTask h
  | followUp e n claimed root =>
    refine inv_addTask h ?_
    rcases Dispatcher.verdict_eq claimed root with hk | hk
    · simp [hk, TaskKind.name]
    · simp [hk, TaskKind.name]
  | removeClaim e => exact inv_removeClaim h

/-! ### The protocol -/

/-- The dispatcher panics over an open claim only when the withdrawal is no longer queued. -/
@[simps]
def protocol : Protocol Role World Panic Query.Answer where
  inv := Inv
  durable := Inv
  rely _ _ _ := True
  guar _ _ _ := True
  answer _ _ _ _ := True
  issue _ _ _ := True
  fault
    | .indexer, _, _ => True
    | .dispatcher, p, w => ∀ e, p = .honestNotDetermined e → ¬w.Queued e .withdrawDeposit

section
variable {route : Route} {log : Log}

lemma patient_indexer : Patient protocol .indexer fun _ => True where
  rely _ _ _ _ _ := trivial
  issue _ _ _ _ _ := trivial
  fault _ _ _ _ _ := trivial

/-- What a handler writes keeps the invariant. -/
lemma inv_write {event : Event} (h : event.Write s t) (hI : Inv s) : Inv t := by
  cases h with
  | store e claimer root ts hnew hnone => exact inv_storeClaim hI hnew
  | update hf => exact inv_updateClaim hI hf.epoch hf.honest
  | clear _ ks => exact inv_invalidateTasks hI
  | queue _ n hsettled =>
    by_cases hv : ∃ e, event = .verified e
    · obtain ⟨e, rfl⟩ := hv
      exact inv_withdrawable hI fun d hd => hsettled e d rfl hd
    · refine inv_addTask hI ?_
      cases event with
      | verified e => exact absurd ⟨e, rfl⟩ hv
      | _ => simp [Event.taskKind, TaskKind.name]

lemma inv_logWrite {target : ScanTarget} (h : log.Write target s t) (hI : Inv s) : Inv t := by
  cases h with
  | act event hev h => exact inv_write h hI
  | relay task hsig hepoch hkind => exact inv_addTask hI (by simp [hkind])
  | save n => exact hI.of_claim? (fun _ => rfl) fun _ hq => hq

lemma wp_handle (target : ScanTarget) (hI : Inv s) :
    (Indexer.handle route target log).wp protocol .indexer (fun _ => Inv) s := by
  have hdispatch : Prog.Keeps protocol .indexer (fun _ => True)
      (Indexer.dispatch route target log) :=
    (confined_dispatch target log).keeps patient_indexer (fun t u hIt _ hw =>
      have hIu : Inv u := inv_logWrite hw hIt
      ⟨trivial, hIu, hIu, trivial⟩) fun _ _ _ _ _ => trivial
  exact Indexer.wp_handle (hdispatch s hI trivial)
    fun t ht => ⟨trivial, inv_note ht.1, inv_note ht.1⟩

/-! ### The dispatcher -/

lemma clerk : Dispatcher.Clerk protocol .dispatcher where
  note _ _ _ h := ⟨trivial, inv_note h⟩
  reschedule _ _ _ h := ⟨trivial, inv_rescheduleTask h⟩
  remove _ _ h := ⟨trivial, inv_removeTask h⟩

lemma inv_finish {now : ℕ} {task : Task} {result : Except String Unit} (h : Inv s) :
    Inv (Dispatcher.finish now task result s) := by
  refine h.of_claim? (fun e => Dispatcher.claim?_finish _ _ _ _ e) fun e hq => ?_
  exact ((Dispatcher.queued_finish _ _ _ _ _ _).mp hq).1

lemma patient_dispatcher : Patient protocol .dispatcher fun _ => True where
  rely _ _ _ _ _ := trivial
  issue _ _ _ _ _ := trivial
  fault p _ hp _ _ e := by
    rintro rfl
    exact hp.elim

lemma executor (task : Task) : Dispatcher.Executor protocol .dispatcher (fun _ => True) route task
    (fun _ => True) fun _ _ => True where
  toPatient := patient_dispatcher
  reads _ := { patient_dispatcher with
    none := fun _ _ _ _ _ h => by cases h
    many := fun _ _ _ _ h => by cases h }
  unknownRoute _ _ _ _ h := by cases h
  undetermined _ s d hI _ hd hparty e he hq := by
    cases he
    rcases (hI.settled _ d hq hd).party with ⟨-, h⟩ | ⟨-, h⟩
    · have hclaimer : partyOf d.honest = .claimer := h
      rw [hparty] at hclaimer
      cases hclaimer
    · have hchallenger : partyOf d.honest = .challenger := h
      rw [hparty] at hchallenger
      cases hchallenger
  claim _ _ _ _ _ := trivial
  root _ _ _ _ _ := trivial
  rootStays _ _ _ _ _ _ _ := trivial
  send _ _ _ _ _ := trivial
  withdraw _ _ _ _ := ⟨trivial, trivial⟩

lemma wp_processTask {now : ℕ} {task : Task} (hI : Inv s) :
    (Dispatcher.processTask route now task).wp protocol .dispatcher (fun _ => Inv) s := by
  refine Dispatcher.wp_processTask clerk hI (Dispatcher.wp_body (executor task) (inv_note hI) trivial
    (fun result t hIt _ _ => ⟨hIt, inv_finish hIt⟩) (fun _ claimed root n t hIt _ _ _ => ?_)
    fun _ t hIt _ => ?_)
  · have hadded := inv_storeOp (.followUp task.epoch n claimed root) hIt
    exact ⟨trivial, hadded, hadded, inv_finish hadded⟩
  · exact ⟨trivial, inv_removeClaim hIt, inv_removeClaim hIt, inv_finish (inv_removeClaim hIt)⟩

end

/-! ### The runs -/

/-- Any logs in any order, passes of the dispatcher, and any of its store operations at any
time; the route may stop at any write and start again. -/
def system (route : Route) : System Role World Panic Query.Answer :=
  { handlerSystem route (fun _ => True) (fun _ _ _ _ => True) Restarted with
    env := fun s t => ∃ op : StoreOp, t = (op.run.burst s).1 }

theorem covers (route : Route) : protocol.Covers (system route) where
  rely_refl _ _ := trivial
  rely_trans _ _ _ _ _ _ := trivial
  guar_rely _ _ _ _ _ _ := trivial
  answer _ _ _ _ _ := trivial
  env s t h hI := by
    obtain ⟨op, rfl⟩ := h
    exact ⟨inv_storeOp op hI, fun _ => trivial⟩
  init s h := ⟨fun e _ hq => absurd hq (h.not_queued e _)⟩
  boot i p s t hp _ _ hI := by
    cases i with
    | indexer =>
      obtain ⟨logs, -, rfl⟩ := hp
      refine Prog.wp_mono (fun _ u hu => hu.1) (Indexer.wp_deliver (L := fun _ _ => True)
        (fun _ _ => trivial) (fun _ _ _ _ _ _ => trivial) (fun target log l u hIu _ => ?_) hI trivial)
      exact Prog.wp_mono (fun _ v hv => ⟨hv, trivial⟩) (wp_handle target hIu)
    | dispatcher =>
      obtain ⟨n, rfl⟩ := hp
      refine Dispatcher.wp_run (L := fun _ _ => True) patient_dispatcher (fun _ _ => trivial)
        (fun _ _ _ _ _ _ => trivial) (fun _ _ _ _ => trivial) (fun now task l u hIu _ => ?_) n hI
      exact Prog.wp_mono (fun _ v hv => ⟨hv, trivial⟩) (wp_processTask hIu)
  durable _ h := h
  restart s t h hst := by
    obtain ⟨onSync, rfl⟩ := hst
    exact ⟨h.settled⟩

/-- **A queued withdrawal has a settled claim.** In every state of every run the stored claim of
an epoch with a queued `WithdrawDeposit` task names the honest party, as `get_claim` reads it,
and when a pass panics over an open claim the task is no longer queued. -/
theorem honest_determined (route : Route) {c : Config Role World Panic Query.Answer}
    (hc : (system route).Reachable c) (e : ℕ) :
    (c.store.Queued e .withdrawDeposit → ∀ d, c.store.claim? e = some d →
      (d.honest = "Claimer" ∧ d.toClaim.honest = .claimer) ∨
        (d.honest = "Challenger" ∧ d.toClaim.honest = .challenger)) ∧
    ∀ c', (system route).Step c (some .dispatcher) c' →
      c'.thread .dispatcher = .panic (.honestNotDetermined e) →
      ¬c'.store.Queued e .withdrawDeposit := by
  refine ⟨fun hq d hd => ?_, fun c' hstep hpanic => ?_⟩
  · exact (((covers route).reachable hc).inv.settled e d hq hd).party
  · exact (covers route).faults hc hstep hpanic e rfl

/-- A claim with the right root is made and verified. -/
def settled : Config Role World Panic Query.Answer :=
  (Sample.start [(.outbox, Sample.claimed 5 1 3), (.outbox, Sample.verified 5 6)]).play
    (Sample.times 3 .indexer (Sample.node 100 0))

lemma reachable_settled : (system Sample.route).Reachable settled := by
  refine System.reachable_play Sample.mem_roles (fun _ _ _ _ => trivial) (.init ⟨rfl, rfl, rfl⟩ ?_)
    (by decide +kernel)
  rintro (_ | _)
  · exact ⟨_, trivial, rfl⟩
  · exact ⟨2, rfl⟩

theorem honest_determined_sample : ∃ d, settled.store.claim? 5 = some d ∧
    ((d.honest = "Claimer" ∧ d.toClaim.honest = .claimer) ∨
      (d.honest = "Challenger" ∧ d.toClaim.honest = .challenger)) := by
  have hd : settled.store.claim? 5 = some ⟨5, 1, 9, 30, 0, 0, "Claimer", 0⟩ := by decide +kernel
  exact ⟨_, hd, (honest_determined Sample.route reachable_settled 5).1 (by decide +kernel) _ hd⟩

end Settlement

end VeaValidator
