import VeaValidator.Interleaving

/-!
The claims of an epoch outlive its tasks.

An epoch is claimed, perhaps verified or challenged, and settled, in this order. Once its
`Verified` log is handled only the withdrawal is left, and when that has gone through the claim
is removed. A task that reads the claim and is still queued then would stop the route. Two
things leave one behind: a `SendSnapshot` task, which `handle_verified_event` does not
invalidate, and a verdict that comes in after it.
-/

namespace VeaValidator

open Coop

/-! ### The order of events -/

/-- The place of an event in the life of its epoch. -/
def Event.rank : Event → ℕ
  | .claimed _ _ _ => 0
  | .verificationStarted _ => 1
  | .challenged _ _ => 2
  | .verified _ => 3

/-- The event of a log of the outbox. -/
def outboxEvent? : ScanTarget × Log → Option Event
  | (.outbox, log) => log.event?
  | (.inbox, _) => none

/-- Every event of an epoch comes once, and after those of a lower rank. -/
def InOrder (logs : List (ScanTarget × Log)) : Prop :=
  logs.Pairwise fun a b => ∀ ev ev', outboxEvent? a = some ev → outboxEvent? b = some ev' →
    ev.epoch = ev'.epoch → ev.rank < ev'.rank

/-- The `Verified` log of `e` has been handled. -/
def Over (w : World) (e : ℕ) : Prop :=
  ∃ log, log.event? = some (.verified e) ∧ .handled .outbox log ∈ w.log

/-- The line says that the `Verified` log of `e` has been handled. -/
def Obs.ends (e : ℕ) : Obs → Bool
  | .handled .outbox log => decide (log.event? = some (.verified e))
  | _ => false

lemma over_iff {w : World} {e : ℕ} : Over w e ↔ w.log.any (Obs.ends e) = true := by
  rw [List.any_eq_true]
  constructor
  · rintro ⟨log, hev, hm⟩
    exact ⟨_, hm, decide_eq_true hev⟩
  · rintro ⟨o, ho, h⟩
    cases o with
    | handled target log =>
      cases target with
      | outbox => exact ⟨log, of_decide_eq_true h, ho⟩
      | inbox => cases h
    | _ => cases h

instance (w : World) (e : ℕ) : Decidable (Over w e) := decidable_of_iff _ over_iff.symm

namespace Lifecycle

/-- The kinds of tasks that need the claim of their epoch. -/
def NeedsClaim (k : KindName) : Prop := Dispatcher.readsClaim k = true ∨ k = .withdrawDeposit

structure Inv (w : World) : Prop where
  stored : ∀ e k, NeedsClaim k → w.Queued e k → w.claim? e ≠ none
  once : (w.schedule.tasks.map Task.key).Pairwise fun a b => a.2 = .withdrawDeposit → b ≠ a
  withdraws : ∀ e, w.Queued e .withdrawDeposit → Over w e
  ended : ∀ e k, Over w e → Dispatcher.readsClaim k = true → ¬w.Queued e k

variable {s t u : World} {e : ℕ}

/-! ### The steps -/

/-- What stores no fewer claims and queues nothing. -/
lemma Inv.mono (h : Inv s) (hclaim : ∀ e, s.claim? e ≠ none → t.claim? e ≠ none)
    (hkeys : (t.schedule.tasks.map Task.key).Sublist (s.schedule.tasks.map Task.key))
    (hover : ∀ e, Over t e ↔ Over s e) : Inv t where
  stored e k hk hq := hclaim e (h.stored e k hk (hkeys.subset hq))
  once := h.once.sublist hkeys
  withdraws e hq := (hover e).mpr (h.withdraws e (hkeys.subset hq))
  ended e k ho hk hq := h.ended e k ((hover e).mp ho) hk (hkeys.subset hq)

lemma over_note {o : Obs} : Over (s.note o) e ↔
    Over s e ∨ ∃ log, log.event? = some (.verified e) ∧ o = .handled .outbox log := by
  constructor
  · rintro ⟨log, hev, hm⟩
    rcases List.mem_cons.mp hm with rfl | hm
    · exact .inr ⟨log, hev, rfl⟩
    · exact .inl ⟨log, hev, hm⟩
  · rintro (⟨log, hev, hm⟩ | ⟨log, hev, rfl⟩)
    · exact ⟨log, hev, List.mem_cons_of_mem _ hm⟩
    · exact ⟨log, hev, List.mem_cons_self⟩

/-- A change of the log that handles nothing. -/
lemma over_congr (h : ∀ log, .handled .outbox log ∈ t.log ↔ .handled .outbox log ∈ s.log) :
    Over t e ↔ Over s e := by
  unfold Over
  simp only [h]

lemma over_addTask {task : Task} : Over (s.addTask task) e ↔ Over s e :=
  over_congr fun log => by simp

lemma over_invalidateTasks {e' : ℕ} {ks : List KindName} :
    Over (s.invalidateTasks e' ks) e ↔ Over s e :=
  over_congr fun log => s.handled_invalidateTasks e' ks .outbox log

lemma over_finish {now : ℕ} {task : Task} {result : Except String Unit} :
    Over (Dispatcher.finish now task result s) e ↔ Over s e :=
  over_congr fun log => Dispatcher.handled_finish now task result s .outbox log

lemma inv_note {o : Obs} (h : Inv s) (ho : ∀ log, o ≠ .handled .outbox log) : Inv (s.note o) := by
  refine h.mono (fun _ hc => hc) (List.Sublist.refl _) fun e => ?_
  rw [over_note]
  refine or_iff_left ?_
  rintro ⟨log, -, rfl⟩
  exact ho log rfl

/-- The line of a handler whose event ends nothing. -/
lemma inv_handled {target : ScanTarget} {log : Log} (h : Inv s)
    (hev : ∀ e, outboxEvent? (target, log) ≠ some (.verified e)) :
    Inv (s.note (.handled target log)) := by
  refine h.mono (fun _ hc => hc) (List.Sublist.refl _) fun e => ?_
  rw [over_note]
  refine or_iff_left ?_
  rintro ⟨log', hev', heq⟩
  cases heq
  exact hev e hev'

lemma inv_addTask {task : Task} (h : Inv s)
    (hclaim : NeedsClaim task.kind.name → s.claim? task.epoch ≠ none)
    (hw : task.kind.name = .withdrawDeposit → Over s task.epoch ∧
      ¬s.Queued task.epoch .withdrawDeposit)
    (hr : Dispatcher.readsClaim task.kind.name = true → ¬Over s task.epoch) :
    Inv (s.addTask task) where
  stored e k hk hq := by
    rcases (World.queued_addTask _ _ _ _).mp hq with hq | ⟨rfl, rfl⟩
    · exact h.stored e k hk hq
    · exact hclaim hk
  once := by
    rw [World.keys_addTask, List.pairwise_append]
    refine ⟨h.once, List.pairwise_singleton _ _, fun a ha b hb hkind => ?_⟩
    rw [List.mem_singleton.mp hb]
    rintro rfl
    exact (hw hkind).2 (by rwa [← hkind])
  withdraws e hq := by
    rw [over_addTask]
    rcases (World.queued_addTask _ _ _ _).mp hq with hq | ⟨rfl, hk⟩
    · exact h.withdraws e hq
    · exact (hw hk.symm).1
  ended e k ho hk hq := by
    rw [over_addTask] at ho
    rcases (World.queued_addTask _ _ _ _).mp hq with hq | ⟨rfl, rfl⟩
    · exact h.ended e k ho hk hq
    · exact hr hk ho

lemma inv_update {f : ClaimData → ClaimData} {ks : List KindName}
    (hf : ∀ c, (f c).epoch = c.epoch) (h : Inv s) :
    Inv ((s.updateClaim e f).invalidateTasks e ks) := by
  refine h.mono (fun e' hc => ?_) (s.keys_invalidateTasks e ks) fun e' => over_invalidateTasks
  exact (World.stored_updateClaim _ _ _ _ hf).mpr hc

lemma inv_finish {now : ℕ} {task : Task} {result : Except String Unit} (h : Inv s) :
    Inv (Dispatcher.finish now task result s) :=
  h.mono (fun e hc => by rwa [Dispatcher.claim?_finish]) (Dispatcher.keys_finish now task result s)
    fun _ => over_finish

/-- A fresh claim, of an epoch without tasks. -/
lemma inv_fresh {claimer : Address} {root : Word} {ts ts' : ℕ} (h : Inv s) (ho : ¬Over s e) :
    Inv ((s.storeClaim (ClaimData.fresh e root claimer ts)).addTask ⟨e, ts', .validateClaim⟩) := by
  have hstore : Inv (s.storeClaim (ClaimData.fresh e root claimer ts)) := by
    refine h.mono (fun e' hc => ?_) (List.Sublist.refl _) fun _ => Iff.rfl
    exact (World.stored_storeClaim _ _ _).mpr (.inl hc)
  refine inv_addTask hstore (fun _ => ?_) nofun fun _ => ho
  exact (World.stored_storeClaim _ _ _).mpr (.inr rfl)

/-- A settled claim. All that reads it has to be gone by then, and `SendSnapshot` tasks go only
by themselves. -/
lemma inv_settle {honest : String} {ts : ℕ} {log : Log} (h : Inv s) (ho : ¬Over s e)
    (hstored : s.claim? e ≠ none) (hsend : ¬s.Queued e .sendSnapshot)
    (hev : log.event? = some (.verified e)) :
    Inv ((((s.updateClaim e (ClaimData.settle honest)).invalidateTasks e
      [.validateClaim, .challenge, .startVerification, .verifySnapshot, .executeRelay]).addTask
        ⟨e, ts, .withdrawDeposit⟩).note (.handled .outbox log)) := by
  have hI : Inv ((s.updateClaim e (ClaimData.settle honest)).invalidateTasks e
      [.validateClaim, .challenge, .startVerification, .verifySnapshot, .executeRelay]) :=
    inv_update (fun _ => rfl) h
  have hstored' : ((s.updateClaim e (ClaimData.settle honest)).invalidateTasks e
      [.validateClaim, .challenge, .startVerification, .verifySnapshot, .executeRelay]).claim? e ≠
        none :=
    (World.stored_updateClaim _ _ _ (ClaimData.settle honest) fun _ => rfl).mpr hstored
  have hnone : ∀ k, Dispatcher.readsClaim k = true →
      ¬((s.updateClaim e (ClaimData.settle honest)).invalidateTasks e
        [.validateClaim, .challenge, .startVerification, .verifySnapshot, .executeRelay]).Queued
          e k := by
    intro k hk hq
    rw [World.queued_invalidateTasks, World.queued_updateClaim] at hq
    cases k with
    | sendSnapshot => exact hsend hq.1
    | validateClaim | challenge | startVerification | verifySnapshot => exact hq.2 ⟨rfl, by simp⟩
    | _ => cases hk
  have hwithdraw : ¬((s.updateClaim e (ClaimData.settle honest)).invalidateTasks e
      [.validateClaim, .challenge, .startVerification, .verifySnapshot, .executeRelay]).Queued
        e .withdrawDeposit := by
    rw [World.queued_invalidateTasks, World.queued_updateClaim]
    exact fun hq => ho (h.withdraws e hq.1)
  generalize (s.updateClaim e (ClaimData.settle honest)).invalidateTasks e
    [.validateClaim, .challenge, .startVerification, .verifySnapshot, .executeRelay] = w at *
  have hnote : Inv (w.note (.handled .outbox log)) := by
    refine ⟨hI.stored, hI.once, fun e' hq => over_note.mpr (.inl (hI.withdraws e' hq)),
      fun e' k hov hk hq => ?_⟩
    rcases over_note.mp hov with hov | ⟨log', hev', heq⟩
    · exact hI.ended e' k hov hk hq
    · cases heq
      rw [hev] at hev'
      cases hev'
      exact hnone k hk hq
  have hadd : Inv ((w.note (.handled .outbox log)).addTask ⟨e, ts, .withdrawDeposit⟩) :=
    inv_addTask hnote (fun _ => hstored')
      (fun _ => ⟨over_note.mpr (.inr ⟨log, hev, rfl⟩), hwithdraw⟩) nofun
  refine hadd.mono (fun _ hc => hc) (List.Sublist.refl _) fun e' => over_congr fun log' => ?_
  simp only [World.log_note, World.log_addTask, List.mem_cons]
  exact or_left_comm

/-- A withdrawal that has gone through: the claim goes, and with it the last task. -/
lemma inv_withdrawn {now : ℕ} {task : Task} (h : Inv s) (hk : task.kind.name = .withdrawDeposit)
    (ho : Over s task.epoch) :
    Inv (Dispatcher.finish now task (.ok ()) (s.removeClaim task.epoch)) where
  stored e k hn hq := by
    rw [Dispatcher.queued_finish, World.queued_removeClaim] at hq
    obtain ⟨hq, hlast⟩ := hq
    rw [Dispatcher.claim?_finish, World.claim?_removeClaim]
    by_cases he : e = task.epoch
    · subst he
      rcases hn with hn | rfl
      · exact absurd hq (h.ended _ k ho hn)
      · exact absurd ⟨rfl, rfl, hk.symm⟩ hlast
    · rw [if_neg he]
      exact h.stored e k hn hq
  once := h.once.sublist (Dispatcher.keys_finish now task _ _)
  withdraws e hq := by
    rw [Dispatcher.queued_finish, World.queued_removeClaim] at hq
    exact over_finish.mpr (h.withdraws e hq.1)
  ended e k hov hn hq := by
    rw [Dispatcher.queued_finish, World.queued_removeClaim] at hq
    have hov' : Over (s.removeClaim task.epoch) e := over_finish.mp hov
    exact h.ended e k hov' hn hq.1

/-! ### The protocol -/

/-- The handler of `Verified` finds no `SendSnapshot` task, and no verdict is given after it. -/
def Careful : Role → (q : Query) → q.Answer → World → Prop
  | .indexer, .snapshots e, .ok _, w => ¬w.Queued e .sendSnapshot
  | .dispatcher, .snapshots e, .ok _, w => ¬Over w e
  | _, _, _, _ => True

/-- Claims stay while the epoch is not over, and nobody but the indexer ends it. -/
structure Clears (s t : World) : Prop where
  claim : ∀ e, s.claim? e ≠ none → t.claim? e = none → Over s e
  ended : ∀ e, Over t e → Over s e

/-- Claims stay, and what is over stays so. -/
structure Keeps (s t : World) : Prop where
  claim : ∀ e, s.claim? e ≠ none → t.claim? e ≠ none
  ended : ∀ e, Over s e → Over t e

lemma Clears.refl (s : World) : Clears s s := ⟨fun _ hc hnone => absurd hnone hc, fun _ h => h⟩

lemma Clears.trans (h : Clears s t) (h' : Clears t u) : Clears s u := by
  refine ⟨fun e hc hnone => ?_, fun e ho => h.ended e (h'.ended e ho)⟩
  by_cases ht : t.claim? e = none
  · exact h.claim e hc ht
  · exact h.ended e (h'.claim e ht hnone)

lemma Keeps.refl (s : World) : Keeps s s := ⟨fun _ h => h, fun _ h => h⟩

lemma Keeps.trans (h : Keeps s t) (h' : Keeps t u) : Keeps s u :=
  ⟨fun e hc => h'.claim e (h.claim e hc), fun e ho => h'.ended e (h.ended e ho)⟩

/-- The dispatcher never reads a claim that is not there. -/
@[simps]
def protocol : Protocol Role World Panic Query.Answer where
  inv := Inv
  durable _ := True
  rely
    | .indexer, s, t => Clears s t
    | .dispatcher, s, t => Keeps s t
  guar
    | .indexer, s, t => Keeps s t
    | .dispatcher, s, t => Clears s t
  answer := Careful
  issue _ _ _ := True
  fault
    | .indexer, _, _ => True
    | .dispatcher, p, _ => ∀ e, p ≠ .noClaimFound e

lemma Keeps.of_claim? (h : ∀ e, t.claim? e = s.claim? e) (hlog : s.log ⊆ t.log) : Keeps s t :=
  ⟨fun e hc => by rwa [h e], fun _ ⟨log, hev, hm⟩ => ⟨log, hev, hlog hm⟩⟩

lemma keeps_note {o : Obs} : Keeps s (s.note o) :=
  .of_claim? (fun _ => rfl) (List.subset_cons_self _ _)

lemma keeps_addTask {task : Task} : Keeps s (s.addTask task) :=
  .of_claim? (fun _ => rfl) (List.subset_cons_self _ _)

lemma keeps_invalidateTasks {ks : List KindName} : Keeps s (s.invalidateTasks e ks) :=
  .of_claim? (fun _ => rfl) (World.log_subset_invalidateTasks _ e ks)

lemma keeps_updateClaim {f : ClaimData → ClaimData} (hf : ∀ c, (f c).epoch = c.epoch) :
    Keeps s (s.updateClaim e f) :=
  ⟨fun _ hc => (World.stored_updateClaim _ _ _ _ hf).mpr hc, fun _ h => h⟩

lemma keeps_storeClaim {c : ClaimData} : Keeps s (s.storeClaim c) :=
  ⟨fun _ hc => (World.stored_storeClaim _ _ _).mpr (.inl hc), fun _ h => h⟩

lemma Clears.of_claim? (h : ∀ e, t.claim? e = s.claim? e) (hover : ∀ e, Over t e ↔ Over s e) :
    Clears s t :=
  ⟨fun e hc hnone => absurd (h e ▸ hnone) hc, fun e => (hover e).mp⟩

lemma patient_indexer {J : World → Prop} (h : ∀ s t, J s → Clears s t → J t) :
    Patient protocol .indexer J where
  rely s t hJ ht _ := h s t hJ ht
  issue _ _ _ _ _ := trivial
  fault _ _ _ _ _ := trivial

/-! ### The handlers -/

section
variable {route : Route} {log : Log} {event : Event}

/-- What a handler knows of its epoch while it waits. -/
structure Waits (s : World) (e : ℕ) (t : World) : Prop where
  ended : ∀ e, Over t e → Over s e
  claim : s.claim? e ≠ none → t.claim? e ≠ none

lemma Waits.refl (s : World) (e : ℕ) : Waits s e s := ⟨fun _ h => h, fun h => h⟩

lemma Waits.clears (ho : ¬Over s e) (h : Waits s e t) (hc : Clears t u) : Waits s e u := by
  refine ⟨fun e' h' => h.ended e' (hc.ended e' h'), fun hs hu => ?_⟩
  exact ho (h.ended e (hc.claim e (h.claim hs) hu))

lemma inv_schedule {f : ClaimData → ClaimData} {ks : List KindName} {n : ℕ} {k : TaskKind}
    (hf : ∀ c, (f c).epoch = c.epoch) (h : Inv t) (hd : t.claim? e ≠ none) (ho : ¬Over t e)
    (hk : k.name ≠ .withdrawDeposit) :
    Inv (((t.updateClaim e f).invalidateTasks e ks).addTask ⟨e, n, k⟩) := by
  refine inv_addTask (inv_update hf h) (fun _ => ?_) (fun hw => absurd hw hk) fun _ hov => ?_
  · exact (World.stored_updateClaim _ _ _ _ hf).mpr hd
  · exact ho (over_invalidateTasks.mp hov)

/-- What a handler leaves behind, before it says that it has handled its log. -/
structure Handled (s : World) (log : Log) (t : World) : Prop where
  inv : Inv (t.note (.handled .outbox log))
  ended : ∀ e, Over t e → Over s e

lemma handled_of_inv (hev : log.event? = some event) (hne : ∀ e, event ≠ .verified e)
    (h : Inv t) (hover : ∀ e, Over t e → Over s e) : Handled s log t := by
  refine ⟨inv_handled h fun e he => hne e ?_, hover⟩
  exact Option.some.inj (hev.symm.trans he)

/-- A missing claim ends nothing: only a stored one is settled. -/
lemma handled_of_missing (h : Inv t) (hover : ∀ e, Over t e → Over s e)
    (hmissing : ∀ e, log.event? = some (.verified e) → t.claim? e = none) : Handled s log t := by
  refine ⟨⟨h.stored, h.once, fun e hq => over_note.mpr (.inl (h.withdraws e hq)),
    fun e k hov hk hq => ?_⟩, hover⟩
  rcases over_note.mp hov with hov | ⟨log', hev', heq⟩
  · exact h.ended e k hov hk hq
  · cases heq
    exact h.stored e k (.inl hk) hq (hmissing e hev')

lemma wp_act (hI : Inv s) (hev : log.event? = some event) (ho : ¬Over s event.epoch) :
    (Indexer.act route log event).wp protocol .indexer (fun _ => Handled s log) s := by
  have hp : Patient protocol .indexer (Waits s event.epoch) :=
    patient_indexer fun _ _ h hc => h.clears ho hc
  cases event with
  | claimed e claimer root =>
    refine Indexer.wp_claimed hp hI (.refl s e)
      (fun t hIt ht _ => handled_of_inv hev nofun hIt ht.ended) fun ts t _ hIt ht _ => ?_
    rw [Prog.wp_bind, wp_store]
    refine ⟨fun _ => ⟨hIt, trivial⟩, fun _ => ⟨keeps_storeClaim, trivial, keeps_addTask, trivial,
      handled_of_inv hev nofun (inv_fresh hIt fun hov => ho (ht.ended e hov)) fun e' hov => ?_⟩⟩
    exact ht.ended e' (over_addTask.mp hov)
  | verificationStarted e =>
    refine Indexer.wp_verificationStarted hp hI (.refl s e) (fun _ ts t _ hIt ht => ?_)
      fun hstored ts n t _ _ hIt ht => ?_
    · exact Indexer.wp_missingClaim (fun _ => handled_of_inv hev nofun hIt ht.ended)
        fun _ => ⟨hIt, trivial⟩
    · rw [Prog.wp_bind, wp_update]
      refine ⟨fun _ => ⟨hIt, trivial⟩, fun d _ => ⟨keeps_updateClaim fun _ => rfl, trivial,
        keeps_invalidateTasks, trivial, keeps_addTask, trivial, ?_⟩⟩
      refine handled_of_inv hev nofun (inv_schedule (fun _ => rfl) hIt (ht.claim hstored)
        (fun hov => ho (ht.ended e hov)) nofun) fun e' hov => ?_
      exact ht.ended e' (over_invalidateTasks.mp (over_addTask.mp hov))
  | challenged e challenger =>
    refine Indexer.wp_challenged hp hp hI (.refl s e) (fun _ ts t _ hIt ht => ?_) fun hstored => ?_
    · exact Indexer.wp_missingClaim (fun _ => handled_of_inv hev nofun hIt ht.ended)
        fun _ => ⟨hIt, trivial⟩
    · have hIu : Inv ((s.updateClaim e (ClaimData.challengeBy challenger)).invalidateTasks e
          [.validateClaim, .challenge, .startVerification, .verifySnapshot]) :=
        inv_update (fun _ => rfl) hI
      rw [Prog.wp_bind, wp_update]
      refine ⟨fun _ => ⟨hI, trivial⟩, fun d _ => ⟨keeps_updateClaim fun _ => rfl, trivial,
        keeps_invalidateTasks, trivial, hIu, ⟨fun e' hov => over_invalidateTasks.mp hov, fun _ => ?_⟩,
        fun ts u _ hIv hu => ⟨keeps_addTask, trivial, ?_⟩⟩⟩
      · exact (World.stored_updateClaim _ _ _ (ClaimData.challengeBy challenger) fun _ => rfl).mpr
          hstored
      · refine handled_of_inv hev nofun (inv_addTask hIv (fun _ => hu.claim hstored) nofun
          fun _ hov => ho (hu.ended e hov)) fun e' hov => ?_
        exact hu.ended e' (over_addTask.mp hov)
  | verified e =>
    refine Indexer.wp_verified (D := fun _ _ => True) hp hI (.refl s e) (fun _ _ _ => trivial)
      (fun _ _ _ _ _ => trivial) (fun _ _ _ _ _ _ _ => trivial) (fun ts t _ hIt ht hnone => ?_)
      fun ts d root t _ ha hIt ht _ => ?_
    · refine Indexer.wp_missingClaim (fun _ => handled_of_missing hIt ht.ended fun e' he' => ?_)
        fun _ => ⟨hIt, trivial⟩
      rw [hev] at he'
      cases he'
      exact hnone
    · rw [Prog.wp_bind, wp_update]
      refine ⟨fun _ => ⟨hIt, trivial⟩, fun d' hd' => ⟨keeps_updateClaim fun _ => rfl, trivial,
        keeps_invalidateTasks, trivial, keeps_addTask, trivial, ?_, fun e' hov => ?_⟩⟩
      · refine inv_settle hIt (fun hov => ho (ht.ended e hov)) ?_ ha hev
        rw [hd']
        exact Option.some_ne_none d'
      · exact ht.ended e' (over_invalidateTasks.mp (over_addTask.mp hov))

/-- The logs still to come are in order, and of epochs that are not over. -/
structure ToCome (l : List (ScanTarget × Log)) (s : World) : Prop where
  order : InOrder l
  ended : ∀ x ∈ l, ∀ ev, outboxEvent? x = some ev → ¬Over s ev.epoch

lemma wp_handle {target : ScanTarget} {l : List (ScanTarget × Log)} (hI : Inv s)
    (hL : ToCome ((target, log) :: l) s) :
    (Indexer.handle route target log).wp protocol .indexer
      (fun _ t => Inv t ∧ ToCome l t) s := by
  obtain ⟨hfirst, horder⟩ := List.pairwise_cons.mp hL.order
  have hl : ∀ x ∈ l, ∀ ev, outboxEvent? x = some ev → ¬Over s ev.epoch :=
    fun x hx => hL.ended x (List.mem_cons_of_mem _ hx)
  cases target with
  | inbox =>
    have hcalm : ∀ t, Inv t → (∀ e, Over t e → Over s e) →
        Inv (t.note (.handled .inbox log)) ∧ ToCome l (t.note (.handled .inbox log)) := by
      refine fun t hIt hover => ⟨inv_handled hIt nofun, horder, fun x hx ev hev hov => ?_⟩
      rcases over_note.mp hov with hov | ⟨_, _, heq⟩
      · exact hl x hx ev hev (hover _ hov)
      · cases heq
    have hp : Patient protocol .indexer fun t => ∀ e, Over t e → Over s e :=
      patient_indexer fun t u h hc e hov => h e (hc.ended e hov)
    refine Indexer.wp_handle (D := fun t => Inv (t.note (.handled .inbox log)) ∧
      ToCome l (t.note (.handled .inbox log))) ?_ fun t ht => ⟨keeps_note, trivial, ht⟩
    refine Indexer.wp_dispatchInboxEvent (fun _ => hcalm s hI fun _ h => h) (fun _ => ?_)
      fun _ => ?_
    · refine Indexer.wp_handleSnapshotSent hp hI (fun _ h => h) (fun t hIt ht _ => hcalm t hIt ht) ?_
      intro e task t _ _ _ _ hkind hIt ht
      refine ⟨keeps_addTask, trivial, hcalm _ (inv_addTask hIt (fun hn => ?_) (fun hw => ?_)
        fun hr => ?_) fun e' hov => ht e' (over_addTask.mp hov)⟩
      · rw [hkind] at hn
        rcases hn with hn | hn <;> cases hn
      · rw [hkind] at hw
        cases hw
      · rw [hkind] at hr
        cases hr
    · refine Indexer.wp_handleSnapshotSaved hp hI (fun _ h => h) (hcalm s hI fun _ h => h) fun n => ?_
      exact ⟨.of_claim? (fun _ => rfl) (List.Subset.refl _), trivial,
        hcalm _ (hI.mono (fun _ hc => hc) (List.Sublist.refl _) fun _ => Iff.rfl) fun _ h => h⟩
  | outbox =>
    have hlast : ∀ t, Handled s log t → Inv (t.note (.handled .outbox log)) ∧
        ToCome l (t.note (.handled .outbox log)) := by
      refine fun t ht => ⟨ht.inv, horder, fun x hx ev hev hov => ?_⟩
      rcases over_note.mp hov with hov | ⟨log', hev', heq⟩
      · exact hl x hx ev hev (ht.ended _ hov)
      · cases heq
        have hrank := hfirst x hx _ ev hev' hev rfl
        cases ev <;> simp [Event.rank] at hrank
    have hp : Patient protocol .indexer fun _ => True := patient_indexer fun _ _ _ _ => trivial
    refine Indexer.wp_handle (D := Handled s log) ?_ fun t ht => ⟨keeps_note, trivial, hlast t ht⟩
    refine Indexer.wp_dispatchOutboxEvent hp hI trivial (fun hnone => ?_) fun event hev => ?_
    · exact handled_of_missing hI (fun _ h => h) fun e he => by
        rw [hnone] at he
        cases he
    · exact wp_act hI hev (hL.ended _ List.mem_cons_self event hev)

end

/-! ### The dispatcher -/

lemma clerk : Dispatcher.Clerk protocol .dispatcher where
  note o s ho _ := by
    refine ⟨.of_claim? (fun _ => rfl) fun e => ?_, trivial⟩
    rw [over_note]
    refine or_iff_left ?_
    rintro ⟨log, -, rfl⟩
    exact ho
  reschedule t n s _ :=
    ⟨.of_claim? (fun _ => rfl) fun e => over_congr fun log => by simp, trivial⟩
  remove t s _ := ⟨.of_claim? (fun _ => rfl) fun _ => Iff.rfl, trivial⟩

/-- The tasks still to be executed have their claims, and a withdrawal is the only one that
needs the claim of its epoch. -/
structure Ready (l : List Task) (s : World) : Prop where
  stored : ∀ task ∈ l, NeedsClaim task.kind.name → s.claim? task.epoch ≠ none
  ended : ∀ task ∈ l, task.kind.name = .withdrawDeposit → Over s task.epoch
  alone : l.Pairwise fun a b => a.kind.name = .withdrawDeposit → b.epoch = a.epoch →
    ¬NeedsClaim b.kind.name

lemma Ready.sublist {l l' : List Task} (h : Ready l s) (hl : l'.Sublist l) : Ready l' s :=
  ⟨fun t ht => h.stored t (hl.subset ht), fun t ht => h.ended t (hl.subset ht), h.alone.sublist hl⟩

lemma Ready.keeps {l : List Task} (h : Ready l s) (hk : Keeps s t) : Ready l t :=
  ⟨fun task ht hn => hk.claim _ (h.stored task ht hn), fun task ht hw => hk.ended _ (h.ended task ht hw),
    h.alone⟩

/-- The queue as a pass finds it. -/
lemma ready_load (hI : Inv s) : Ready s.schedule.tasks s where
  stored task ht hn := hI.stored _ _ hn (World.queued_of_mem ht)
  ended task ht hw := hI.withdraws _ (hw ▸ World.queued_of_mem ht)
  alone := by
    have honce := List.pairwise_map.mp hI.once
    refine honce.imp_of_mem fun {a b} ha hb hab hw he hn => ?_
    have hqb := World.queued_of_mem hb
    have hover := hI.withdraws a.epoch (hw ▸ World.queued_of_mem ha)
    rcases hn with hn | hn
    · rw [he] at hqb
      exact hI.ended _ _ hover hn hqb
    · refine hab hw ?_
      rw [Task.key, Task.key, he, hn, hw]

lemma patient_dispatcher {J : World → Prop} (h : ∀ s t, J s → Keeps s t → J t) :
    Patient protocol .dispatcher J where
  rely s t hJ ht _ := h s t hJ ht
  issue _ _ _ _ _ := trivial
  fault p _ hp _ _ e := by
    rintro rfl
    exact hp

/-- While the dispatcher waits the claim its task needs stays in the store. -/
lemma executor (route : Route) (task : Task) (l : List Task) :
    Dispatcher.Executor protocol .dispatcher (Ready (task :: l)) route task (fun _ => True)
      fun _ _ => True := by
  have hp : Patient protocol .dispatcher (Ready (task :: l)) :=
    patient_dispatcher fun _ _ h hk => h.keeps hk
  refine .free hp (fun _ _ => trivial) (fun hreads => ?_) (fun _ _ => nofun) fun _ _ => nofun
  have hn : NeedsClaim task.kind.name := hreads.imp_right fun hw => by rw [hw]; rfl
  exact { hp with
    none := fun t _ ht hnone => absurd hnone (ht.stored task List.mem_cons_self hn)
    many := fun _ _ _ _ => nofun }

lemma wp_processTask {route : Route} {now : ℕ} {task : Task} {l : List Task} (hI : Inv s)
    (hL : Ready (task :: l) s) :
    (Dispatcher.processTask route now task).wp protocol .dispatcher
      (fun _ t => Inv t ∧ Ready l t) s := by
  have hend : ∀ result t, Inv t → Ready (task :: l) t →
      Inv (Dispatcher.finish now task result t) ∧ Ready l (Dispatcher.finish now task result t) := by
    refine fun result t hIt ht => ⟨inv_finish hIt, ?_⟩
    refine (ht.sublist (List.sublist_cons_self _ _)).keeps ⟨fun e hc => ?_, fun e => over_finish.mpr⟩
    rwa [Dispatcher.claim?_finish]
  have hIn : Inv (s.note (.executing task)) := inv_note hI nofun
  have hLn : Ready (task :: l) (s.note (.executing task)) := hL.keeps keeps_note
  refine Dispatcher.wp_processTask clerk trivial (Dispatcher.wp_body (executor route task l) hIn hLn
    (fun result t hIt ht _ => ⟨trivial, hend _ t hIt ht⟩)
    (fun hv claimed root n t hIt ht _ ho => ?_) fun hw t hIt ht => ?_)
  · have hn : NeedsClaim task.kind.name := .inl (by rw [hv]; rfl)
    have hname : (Dispatcher.verdict claimed root).name ≠ .withdrawDeposit := by
      rcases Dispatcher.verdict_eq claimed root with h | h <;> simp [h, TaskKind.name]
    have hIa : Inv (t.addTask ⟨task.epoch, n, Dispatcher.verdict claimed root⟩) :=
      inv_addTask hIt (fun _ => ht.stored task List.mem_cons_self hn)
        (fun hw => absurd hw hname) fun _ => ho
    exact ⟨.of_claim? (fun _ => rfl) fun _ => over_addTask, trivial, trivial,
      hend _ _ hIa (ht.keeps keeps_addTask)⟩
  · have hname : task.kind.name = .withdrawDeposit := by rw [hw]; rfl
    have ho := ht.ended task List.mem_cons_self hname
    obtain ⟨halone, hpair⟩ := List.pairwise_cons.mp ht.alone
    refine ⟨⟨fun e hc hnone => ?_, fun _ h => h⟩, trivial, trivial, inv_withdrawn hIt hname ho,
      fun b hb hn => ?_, fun b hb hk => ?_, hpair⟩
    · rw [World.claim?_removeClaim] at hnone
      by_cases he : e = task.epoch
      · rwa [he]
      · rw [if_neg he] at hnone
        exact absurd hnone hc
    · have he : b.epoch ≠ task.epoch := fun he => halone b hb hname he hn
      rw [Dispatcher.claim?_finish, World.claim?_removeClaim, if_neg he]
      exact ht.stored b (List.mem_cons_of_mem _ hb) hn
    · exact over_finish.mpr (ht.ended b (List.mem_cons_of_mem _ hb) hk)

/-! ### The runs -/

/-- Any logs in order, any answers, and no crash. -/
def system (route : Route) : System Role World Panic Query.Answer :=
  handlerSystem route InOrder (fun _ _ _ _ => True) fun _ _ => False

theorem covers (route : Route) : protocol.Covers ((system route).restrict Careful) where
  rely_refl i s := by
    cases i with
    | indexer => exact Clears.refl s
    | dispatcher => exact Keeps.refl s
  rely_trans i s t u h h' := by
    cases i with
    | indexer => exact Clears.trans h h'
    | dispatcher => exact Keeps.trans h h'
  guar_rely := Role.guar_rely (fun _ _ h => h) fun _ _ h => h
  answer _ _ _ _ h := h.2
  env _ _ h := h.elim
  init s h := by
    refine ⟨fun e k _ hq => absurd hq (h.not_queued e k), ?_,
      fun e hq => absurd hq (h.not_queued e _), fun e k _ _ hq => absurd hq (h.not_queued e k)⟩
    rw [h.1]
    exact List.Pairwise.nil
  boot i p s t hp hs hrel hI := by
    cases i with
    | indexer =>
      obtain ⟨logs, hlogs, rfl⟩ := hp
      have hinit := hs.resolve_right fun h => h.choose_spec.2
      obtain ⟨-, -, hlog⟩ := hinit
      have hstart : ToCome logs t := by
        refine ⟨hlogs, fun x _ ev _ hov => ?_⟩
        obtain ⟨log, -, hm⟩ := hrel.ended _ hov
        rw [hlog] at hm
        cases hm
      exact Prog.wp_mono (fun _ u hu => hu.1) (Indexer.wp_deliver (L := ToCome)
        (fun _ _ => trivial) (fun l u v hL (hc : Clears u v) _ => ⟨hL.order, fun x hx ev hev hov =>
          hL.ended x hx ev hev (hc.ended _ hov)⟩) (fun _ _ _ _ => wp_handle) hI hstart)
    | dispatcher =>
      obtain ⟨n, rfl⟩ := hp
      exact Dispatcher.wp_run (L := Ready) (patient_dispatcher fun _ _ _ _ => trivial)
        (fun _ => ready_load)
        (fun _ _ _ hL hk _ => hL.keeps hk) (fun _ _ _ hL => hL.sublist List.filter_sublist)
        (fun _ _ _ _ => wp_processTask) n hI
  durable _ _ := trivial
  restart _ _ _ h := h.elim

/-- **Every task that reads a claim finds it, in careful runs.** In every state of every run in
which no `Verified` log is handled beside a `SendSnapshot` task of its epoch, and no verdict is
given after one, a queued task that reads the claim of its epoch has it in the store, and the
dispatcher does not stop over a missing claim. -/
theorem claims_outlive_tasks (route : Route) {c : Config Role World Panic Query.Answer}
    (hc : ((system route).restrict Careful).Reachable c) :
    (∀ e k, Dispatcher.readsClaim k = true → c.store.Queued e k → c.store.claim? e ≠ none) ∧
      ∀ e, c.thread .dispatcher ≠ .panic (.noClaimFound e) := by
  have hholds := (covers route).reachable hc
  refine ⟨fun e k hk => hholds.inv.stored e k (.inl hk), fun e he => ?_⟩
  obtain ⟨s, -, hfault⟩ := hholds.fault .dispatcher _ he
  exact hfault e rfl

/-! ### A claim that is challenged and settled -/

def sampleLogs : List (ScanTarget × Log) :=
  [(.outbox, Sample.claimed 5 1 3), (.outbox, Sample.challenged 5 4),
    (.outbox, Sample.verified 5 6)]

lemma inOrder_sample : InOrder sampleLogs := by
  have hall : sampleLogs.map outboxEvent? =
      [some (.claimed 5 9 1), some (.challenged 5 8), some (.verified 5)] := by decide
  have hpair : (sampleLogs.map outboxEvent?).Pairwise fun a b => ∀ ev ev', a = some ev →
      b = some ev' → ev.epoch = ev'.epoch → ev.rank < ev'.rank := by
    rw [hall]
    refine .cons ?_ (.cons ?_ (.cons nofun .nil)) <;>
      · intro b hb ev ev' hev hev' _
        cases hev
        simp only [List.mem_cons, List.not_mem_nil, or_false] at hb
        rcases hb with rfl | rfl <;> cases hev' <;> decide
  exact List.pairwise_map.mp hpair

/-- Nodes that accept every transaction but `sendSnapshot`. -/
def refusing : (q : Query) → q.Answer
  | .send (.sendSnapshot _ _ _) => .error "execution reverted"
  | q => Sample.node 100 0 q

/-- The three logs are handled, then a pass tries the two tasks that are left, and the next
one begins. -/
def leftSchedule : List (Role × ((q : Query) → q.Answer)) :=
  Sample.times 4 .indexer refusing ++ Sample.times 7 .dispatcher refusing

def left : Config Role World Panic Query.Answer := (Sample.start sampleLogs).play leftSchedule

/-- The `SendSnapshot` task has lost its claim, and stops the route. -/
theorem sendSnapshot_orphaned : ∃ c, (system Sample.route).Reachable c ∧
    c.store.Queued 5 .sendSnapshot ∧ c.store.claim? 5 = none ∧
    (c.thread .dispatcher).panicked = true := by
  refine ⟨left, ?_, by decide +kernel, by decide +kernel, by decide +kernel⟩
  refine System.reachable_play Sample.mem_roles (fun _ _ _ _ => trivial) (.init ⟨rfl, rfl, rfl⟩ ?_)
    (by decide +kernel)
  rintro (_ | _)
  · exact ⟨sampleLogs, inOrder_sample, rfl⟩
  · exact ⟨2, rfl⟩

/-- Nodes that do not answer. -/
def silent : (q : Query) → q.Answer
  | .sleep _ => .ok ()
  | _ => .error "connection refused"

/-! ### A careful run -/

/-- What `Careful` asks for, as a check of one answer. -/
def check : Role → (q : Query) → q.Answer → World → Bool
  | .indexer, .snapshots e, .ok _, w => !decide (w.Queued e .sendSnapshot)
  | .dispatcher, .snapshots e, .ok _, w => !decide (Over w e)
  | _, _, _, _ => true

lemma careful_check {i : Role} {q : Query} {a : q.Answer} {w : World}
    (h : check i q a w = true) : Careful i q a w := by
  cases i with
  | indexer =>
    cases q with
    | snapshots e =>
      cases a with
      | error err => trivial
      | ok root =>
        have hnone : (!decide (w.Queued e .sendSnapshot)) = true := h
        rw [Bool.not_eq_true', decide_eq_false_iff_not] at hnone
        exact hnone
    | _ => trivial
  | dispatcher =>
    cases q with
    | snapshots e =>
      cases a with
      | error err => trivial
      | ok root =>
        have hopen : (!decide (Over w e)) = true := h
        rw [Bool.not_eq_true', decide_eq_false_iff_not] at hopen
        exact hopen
    | _ => trivial

/-- Two claims are made; the first is challenged and settled. -/
def settledLogs : List (ScanTarget × Log) :=
  [(.outbox, Sample.claimed 5 1 3), (.outbox, Sample.claimed 6 1 4),
    (.outbox, Sample.challenged 5 5), (.outbox, Sample.verified 5 6)]

lemma inOrder_settled : InOrder settledLogs := by
  have hall : settledLogs.map outboxEvent? = [some (.claimed 5 9 1), some (.claimed 6 9 1),
      some (.challenged 5 8), some (.verified 5)] := by decide
  have hpair : (settledLogs.map outboxEvent?).Pairwise fun a b => ∀ ev ev', a = some ev →
      b = some ev' → ev.epoch = ev'.epoch → ev.rank < ev'.rank := by
    rw [hall]
    refine .cons ?_ (.cons ?_ (.cons ?_ (.cons nofun .nil))) <;>
      · intro b hb ev ev' hev hev' he
        cases hev
        simp only [List.mem_cons, List.not_mem_nil, or_false] at hb
        rcases hb with rfl | rfl | rfl <;> cases hev' <;> revert he <;> decide
  exact List.pairwise_map.mp hpair

/-- Nodes that accept every transaction but `startVerification`. -/
def hesitant : (q : Query) → q.Answer
  | .send (.startVerification _ _) => .error "timed out"
  | q => Sample.node 30000 0 q

/-- Both claims and the challenge are handled, a pass gives the verdict of the second claim and
sends the snapshot of the first, and then the end of the first is handled. -/
def settledSchedule : List (Role × ((q : Query) → q.Answer)) :=
  Sample.times 3 .indexer hesitant ++ Sample.times 6 .dispatcher hesitant ++
    Sample.times 2 .indexer hesitant

def settled : Config Role World Panic Query.Answer := (Sample.start settledLogs).play settledSchedule

lemma reachable_settled : ((system Sample.route).restrict Careful).Reachable settled := by
  have hboot : ((system Sample.route).restrict Careful).Reachable (Sample.start settledLogs) := by
    refine .init ⟨rfl, rfl, rfl⟩ ?_
    rintro (_ | _)
    · exact ⟨settledLogs, inOrder_settled, rfl⟩
    · exact ⟨2, rfl⟩
  exact System.reachable_checks check Sample.mem_roles hboot
    (fun _ _ _ _ h => ⟨trivial, careful_check h⟩) (by decide +kernel) (by decide +kernel)

theorem claims_outlive_tasks_sample : settled.store.schedule.tasks.map Task.key =
      [(6, .startVerification), (5, .withdrawDeposit)] ∧
    settled.store.claim? 6 ≠ none ∧ ∀ e, settled.thread .dispatcher ≠ .panic (.noClaimFound e) := by
  obtain ⟨hstored, hrunning⟩ := claims_outlive_tasks Sample.route reachable_settled
  exact ⟨by decide +kernel, hstored 6 .startVerification rfl (by decide +kernel), hrunning⟩

end Lifecycle

end VeaValidator
