import VeaValidator.Uniqueness
import VeaValidator.Resync

/-!
Invalidated tasks stay away.

The handlers of `Challenged` and `Verified` remove the tasks an event has made pointless. What
they have removed comes back when somebody who has looked at the epoch before adds a task after
them: a `ValidateClaim` body whose last answer comes in late, or the inbox, whose cursor may be
behind, with the relay of an epoch that is over.
-/

namespace VeaValidator

open Coop Resync

namespace Invalidation

/-- The kinds of tasks a challenge removes. -/
def invalidated : List KindName := [.validateClaim, .challenge, .startVerification, .verifySnapshot]

lemma sendSnapshot_stays : KindName.sendSnapshot ∉ invalidated := by decide
lemma withdrawDeposit_stays : KindName.withdrawDeposit ∉ invalidated := by decide

/-- The `Challenged` log of `e` has been handled. -/
def Struck (w : World) (e : ℕ) : Prop :=
  ∃ log challenger, log.event? = some (.challenged e challenger) ∧ .handled .outbox log ∈ w.log

/-- What an epoch has lost is not queued again. -/
structure Inv (w : World) : Prop where
  stored : ∀ e k, k ∈ invalidated → w.Queued e k → w.claim? e ≠ none
  struck : ∀ e k, Struck w e ∨ Over w e → k ∈ invalidated → ¬w.Queued e k
  relays : ∀ e, Over w e → ¬w.Queued e .executeRelay
  withdraws : ∀ e, w.Queued e .withdrawDeposit → Over w e

variable {s t u : World} {e : ℕ}

/-! ### The steps -/

/-- Both worlds have handled the same logs of the outbox. -/
def SameHandled (s t : World) : Prop :=
  ∀ log, .handled .outbox log ∈ t.log ↔ .handled .outbox log ∈ s.log

lemma SameHandled.refl (s : World) : SameHandled s s := fun _ => Iff.rfl

lemma SameHandled.trans (h : SameHandled s t) (h' : SameHandled t u) : SameHandled s u :=
  fun log => (h' log).trans (h log)

lemma SameHandled.over (h : SameHandled s t) : Over t e ↔ Over s e :=
  Lifecycle.over_congr h

lemma SameHandled.struck (h : SameHandled s t) : Struck t e ↔ Struck s e := by
  unfold Struck
  simp only [h _]

lemma sameHandled_note {o : Obs} (ho : ∀ log, o ≠ .handled .outbox log) :
    SameHandled s (s.note o) := by
  refine fun log => ⟨fun hm => ?_, fun hm => List.mem_cons_of_mem _ hm⟩
  rcases List.mem_cons.mp hm with rfl | hm
  · exact absurd rfl (ho log)
  · exact hm

lemma sameHandled_addTask {task : Task} : SameHandled s (s.addTask task) :=
  sameHandled_note fun _ h => by cases h

lemma sameHandled_rescheduleTask {task : Task} {n : ℕ} :
    SameHandled s (s.rescheduleTask task n) := sameHandled_note fun _ h => by cases h

lemma sameHandled_invalidateTasks {ks : List KindName} :
    SameHandled s (s.invalidateTasks e ks) := fun log =>
  s.handled_invalidateTasks e ks .outbox log

lemma sameHandled_finish {now : ℕ} {task : Task} {result : Except String Unit} :
    SameHandled s (Dispatcher.finish now task result s) := fun log =>
  Dispatcher.handled_finish now task result s .outbox log

lemma struck_note {o : Obs} : Struck (s.note o) e ↔ Struck s e ∨
    ∃ log challenger, log.event? = some (.challenged e challenger) ∧ o = .handled .outbox log := by
  constructor
  · rintro ⟨log, challenger, hev, hm⟩
    rcases List.mem_cons.mp hm with rfl | hm
    · exact .inr ⟨log, challenger, hev, rfl⟩
    · exact .inl ⟨log, challenger, hev, hm⟩
  · rintro (⟨log, challenger, hev, hm⟩ | ⟨log, challenger, hev, rfl⟩)
    · exact ⟨log, challenger, hev, List.mem_cons_of_mem _ hm⟩
    · exact ⟨log, challenger, hev, List.mem_cons_self⟩

/-- What loses no claim, queues nothing and handles nothing. -/
lemma Inv.mono (h : Inv s) (hclaim : ∀ e, s.claim? e ≠ none → t.claim? e ≠ none)
    (hqueued : ∀ e k, t.Queued e k → s.Queued e k) (hlog : SameHandled s t) : Inv t where
  stored e k hk hq := hclaim e (h.stored e k hk (hqueued e k hq))
  struck e k hs hk hq :=
    h.struck e k (hs.imp hlog.struck.mp hlog.over.mp) hk (hqueued e k hq)
  relays e ho hq := h.relays e (hlog.over.mp ho) (hqueued e _ hq)
  withdraws e hq := hlog.over.mpr (h.withdraws e (hqueued e _ hq))

lemma inv_note {o : Obs} (h : Inv s) (ho : ∀ log, o ≠ .handled .outbox log) : Inv (s.note o) :=
  h.mono (fun _ hc => hc) (fun _ _ hq => hq) (sameHandled_note ho)

lemma inv_addTask {task : Task} (h : Inv s)
    (hopen : task.kind.name ∈ invalidated →
      s.claim? task.epoch ≠ none ∧ ¬(Struck s task.epoch ∨ Over s task.epoch))
    (hrelay : task.kind.name = .executeRelay → ¬Over s task.epoch)
    (hwithdraw : task.kind.name = .withdrawDeposit → Over s task.epoch) : Inv (s.addTask task) where
  stored e k hk hq := by
    rcases (World.queued_addTask _ _ _ _).mp hq with hq | ⟨rfl, rfl⟩
    · exact h.stored e k hk hq
    · exact (hopen hk).1
  struck e k hs hk hq := by
    have hs' : Struck s e ∨ Over s e := hs.imp sameHandled_addTask.struck.mp sameHandled_addTask.over.mp
    rcases (World.queued_addTask _ _ _ _).mp hq with hq | ⟨rfl, rfl⟩
    · exact h.struck e k hs' hk hq
    · exact (hopen hk).2 hs'
  relays e ho hq := by
    have ho' : Over s e := sameHandled_addTask.over.mp ho
    rcases (World.queued_addTask _ _ _ _).mp hq with hq | ⟨rfl, hk⟩
    · exact h.relays e ho' hq
    · exact hrelay hk.symm ho'
  withdraws e hq := by
    refine sameHandled_addTask.over.mpr ?_
    rcases (World.queued_addTask _ _ _ _).mp hq with hq | ⟨rfl, hk⟩
    · exact h.withdraws e hq
    · exact hwithdraw hk.symm

lemma inv_storeClaim {c : ClaimData} (h : Inv s) : Inv (s.storeClaim c) := by
  refine h.mono (fun e hc => ?_) (fun _ _ hq => hq) (.refl s)
  exact (World.stored_storeClaim _ _ _).mpr (.inl hc)

lemma inv_update {f : ClaimData → ClaimData} {ks : List KindName}
    (hf : ∀ c, (f c).epoch = c.epoch) (h : Inv s) :
    Inv ((s.updateClaim e f).invalidateTasks e ks) := by
  refine h.mono (fun e' hc => ?_) (fun e' k hq => ?_) sameHandled_invalidateTasks
  · exact (World.stored_updateClaim _ _ _ _ hf).mpr hc
  · exact ((World.queued_invalidateTasks _ _ _ _ _).mp hq).1

/-- The claim of an epoch that is over can go: nothing reads it any more. -/
lemma inv_removeClaim (h : Inv s) (ho : Over s e) : Inv (s.removeClaim e) where
  stored e' k hk hq := by
    rw [World.claim?_removeClaim]
    by_cases he : e' = e
    · subst he
      exact absurd hq (h.struck e' k (.inr ho) hk)
    · rw [if_neg he]
      exact h.stored e' k hk hq
  struck := h.struck
  relays := h.relays
  withdraws := h.withdraws

/-- A log is handled. What its event invalidates has to be gone by then. -/
lemma inv_handled {log : Log} (h : Inv s)
    (hstruck : ∀ e challenger, log.event? = some (.challenged e challenger) →
      ∀ k ∈ invalidated, ¬s.Queued e k)
    (hover : ∀ e, log.event? = some (.verified e) →
      (∀ k ∈ invalidated, ¬s.Queued e k) ∧ ¬s.Queued e .executeRelay) :
    Inv (s.note (.handled .outbox log)) where
  stored := h.stored
  struck e k hs hk hq := by
    rw [struck_note, Lifecycle.over_note] at hs
    rcases hs with (hs | ⟨_, challenger, hev, heq⟩) | (hs | ⟨_, hev, heq⟩)
    · exact h.struck e k (.inl hs) hk hq
    · cases heq
      exact hstruck e challenger hev k hk hq
    · exact h.struck e k (.inr hs) hk hq
    · cases heq
      exact (hover e hev).1 k hk hq
  relays e ho hq := by
    rcases Lifecycle.over_note.mp ho with ho | ⟨_, hev, heq⟩
    · exact h.relays e ho hq
    · cases heq
      exact (hover e hev).2 hq
  withdraws e hq := Lifecycle.over_note.mpr (.inl (h.withdraws e hq))

/-! ### The protocol -/

/-- No log of an epoch is handed out after a log of its from a later block. -/
def InTurn : Role → (q : Query) → q.Answer → World → Prop
  | .indexer, .logs .outbox _, .ok (log :: _), w => ∀ log' ev ev', .handled .outbox log' ∈ w.log →
      log.event? = some ev → log'.event? = some ev' → ev.epoch = ev'.epoch →
      log'.blockNumber.getD 0 ≤ log.blockNumber.getD 0
  | _, _, _, _ => True

/-- A claim and a verification come before the challenge and the end of their epoch, and so do
the messages of the inbox; the end of an epoch without a claim finds no relay; and a verdict is
given only while its task is queued. -/
def Careful (route : Route) (L : Ledger) : Role → (q : Query) → q.Answer → World → Prop
  | .indexer, .logs .outbox _, .ok (log :: _), w => ∀ ev, log.event? = some ev →
      (ev.rank ≤ 1 → ¬(Struck w ev.epoch ∨ Over w ev.epoch)) ∧
      (ev = .verified ev.epoch → w.claim? ev.epoch = none → ¬w.Queued ev.epoch .executeRelay)
  | .indexer, .logs .inbox _, .ok (log :: _), w =>
      ∀ e, OwnSent route L e (.inbox, log) → ¬Over w e
  | .dispatcher, .snapshots e, .ok _, w => w.Queued e .validateClaim
  | _, _, _, _ => True

/-- What the dispatcher does. Verdicts are given in place of their task, and the claims of
epochs that are over are removed. -/
structure Serves (s t : World) : Prop where
  adds : ∀ e k, t.Queued e k →
    s.Queued e k ∨ ((k = .challenge ∨ k = .startVerification) ∧ s.Queued e .validateClaim)
  removes : ∀ e, s.claim? e ≠ none → t.claim? e = none → Over s e
  stores : ∀ e, s.claim? e = none → t.claim? e = none
  handled : SameHandled s t

/-- What the indexer does not do: it removes no claim, and no log is handled backwards. -/
structure Keeps (s t : World) : Prop where
  claim : ∀ e, s.claim? e ≠ none → t.claim? e ≠ none
  handled : ∀ log, .handled .outbox log ∈ s.log → .handled .outbox log ∈ t.log

lemma Serves.refl (s : World) : Serves s s :=
  ⟨fun _ _ hq => .inl hq, fun _ hc hnone => absurd hnone hc, fun _ h => h, .refl s⟩

lemma Serves.trans (h : Serves s t) (h' : Serves t u) : Serves s u := by
  refine ⟨fun e k hq => ?_, fun e hs hu => ?_, fun e hs => h'.stores e (h.stores e hs),
    h.handled.trans h'.handled⟩
  · rcases h'.adds e k hq with hq | ⟨hk, hq⟩
    · exact h.adds e k hq
    · rcases h.adds e _ hq with hq | ⟨hv, -⟩
      · exact .inr ⟨hk, hq⟩
      · rcases hv with hv | hv <;> cases hv
  · by_cases ht : t.claim? e = none
    · exact h.removes e hs ht
    · exact h.handled.over.mp (h'.removes e ht hu)

lemma Keeps.refl (s : World) : Keeps s s := ⟨fun _ h => h, fun _ h => h⟩

lemma Keeps.trans (h : Keeps s t) (h' : Keeps t u) : Keeps s u :=
  ⟨fun e hc => h'.claim e (h.claim e hc),
    fun log hm => h'.handled log (h.handled log hm)⟩

lemma Keeps.over (h : Keeps s t) (ho : Over s e) : Over t e := by
  obtain ⟨log, hev, hm⟩ := ho
  exact ⟨log, hev, h.handled log hm⟩

lemma Keeps.struck (h : Keeps s t) (hs : Struck s e) : Struck t e := by
  obtain ⟨log, challenger, hev, hm⟩ := hs
  exact ⟨log, challenger, hev, h.handled log hm⟩

/-- The indexer invalidates and the dispatcher adds nothing that has been invalidated. -/
@[simps]
def protocol (route : Route) (L : Ledger) : Protocol Role World Panic Query.Answer where
  inv := Inv
  durable _ := True
  rely
    | .indexer, s, t => Serves s t
    | .dispatcher, s, t => Keeps s t
  guar
    | .indexer, s, t => Keeps s t
    | .dispatcher, s, t => Serves s t
  answer i q a w := L.Answers q a w ∧ Careful route L i q a w
  issue _ _ _ := True
  fault _ _ _ := True

lemma keeps_of_claim? (h : ∀ e, t.claim? e = s.claim? e) (hlog : s.log ⊆ t.log) : Keeps s t :=
  ⟨fun e hc => by rwa [h e], fun _ hm => hlog hm⟩

lemma keeps_note {o : Obs} : Keeps s (s.note o) :=
  keeps_of_claim? (fun _ => rfl) (List.subset_cons_self _ _)

lemma keeps_addTask {task : Task} : Keeps s (s.addTask task) :=
  keeps_of_claim? (fun _ => rfl) (List.subset_cons_self _ _)

lemma keeps_invalidateTasks {ks : List KindName} : Keeps s (s.invalidateTasks e ks) :=
  keeps_of_claim? (fun _ => rfl) (s.log_subset_invalidateTasks e ks)

lemma keeps_updateClaim {f : ClaimData → ClaimData} (hf : ∀ c, (f c).epoch = c.epoch) :
    Keeps s (s.updateClaim e f) :=
  ⟨fun _ hc => (World.stored_updateClaim _ _ _ _ hf).mpr hc, fun _ h => h⟩

lemma keeps_storeClaim {c : ClaimData} : Keeps s (s.storeClaim c) := by
  refine ⟨fun e hc => ?_, fun _ h => h⟩
  exact (World.stored_storeClaim _ _ _).mpr (.inl hc)

/-! ### The handlers -/

section
variable {route : Route} {L : Ledger} {log : Log} {event : Event}

lemma patient_indexer {J : World → Prop} (h : ∀ s t, J s → Serves s t → J t) :
    Patient (protocol route L) .indexer J where
  rely s t hJ ht _ := h s t hJ ht
  issue _ _ _ _ _ := trivial
  fault _ _ _ _ _ := trivial

/-- What a handler leaves behind, before it says that it has handled its log. -/
def Handled (log : Log) (t : World) : Prop := Inv (t.note (.handled .outbox log))

lemma handled_of_inv (hev : log.event? = some event) (hrank : event.rank ≤ 1) (h : Inv t) :
    Handled log t := by
  refine inv_handled h (fun e challenger hc => ?_) fun e hc => ?_
  · rw [hev] at hc
    cases hc
    exact absurd hrank (by simp [Event.rank])
  · rw [hev] at hc
    cases hc
    exact absurd hrank (by simp [Event.rank])

lemma handled_of_struck {challenger : Address} (hev : log.event? = some (.challenged e challenger))
    (h : Inv t) (hnone : ∀ k ∈ invalidated, ¬t.Queued e k) : Handled log t := by
  refine inv_handled h (fun e' challenger' hc => ?_) fun e' hc => ?_
  · rw [hev] at hc
    cases hc
    exact hnone
  · rw [hev] at hc
    cases hc

lemma handled_of_over (hev : log.event? = some (.verified e)) (h : Inv t)
    (hnone : ∀ k ∈ invalidated, ¬t.Queued e k) (hrelay : ¬t.Queued e .executeRelay) :
    Handled log t := by
  refine inv_handled h (fun e' challenger' hc => ?_) fun e' hc => ?_
  · rw [hev] at hc
    cases hc
  · rw [hev] at hc
    cases hc
    exact ⟨hnone, hrelay⟩

/-- Without a claim there is nothing to invalidate. -/
lemma none_of_missing (h : Inv t) (hnone : t.claim? e = none) : ∀ k ∈ invalidated, ¬t.Queued e k :=
  fun k hk hq => h.stored e k hk hq hnone

/-- While the dispatcher works the claim of an open epoch stays, and no other is made. -/
structure Waits (s : World) (e : ℕ) (t : World) : Prop where
  live : ¬(Struck t e ∨ Over t e)
  claim : s.claim? e ≠ none → t.claim? e ≠ none

lemma Waits.serves (h : Waits s e t) (hu : Serves t u) : Waits s e u := by
  refine ⟨fun hs => h.live (hs.imp hu.handled.struck.mp hu.handled.over.mp), fun hs hnone => ?_⟩
  exact h.live (.inr (hu.removes e (h.claim hs) hnone))

/-- The withdrawal is queued right before its log counts as handled. -/
lemma handled_settle {honest : String} {n : ℕ} (h : Inv t) (hev : log.event? = some (.verified e)) :
    Handled log (((t.updateClaim e (ClaimData.settle honest)).invalidateTasks e
      [.validateClaim, .challenge, .startVerification, .verifySnapshot, .executeRelay]).addTask
        ⟨e, n, .withdrawDeposit⟩) := by
  have hI : Inv ((t.updateClaim e (ClaimData.settle honest)).invalidateTasks e
      [.validateClaim, .challenge, .startVerification, .verifySnapshot, .executeRelay]) :=
    inv_update (fun _ => rfl) h
  have hgone : ∀ k ∈ invalidated ++ [.executeRelay], ¬((t.updateClaim e
      (ClaimData.settle honest)).invalidateTasks e
      [.validateClaim, .challenge, .startVerification, .verifySnapshot, .executeRelay]).Queued e k :=
    fun k hk hq => ((World.queued_invalidateTasks _ _ _ _ _).mp hq).2 ⟨rfl, hk⟩
  generalize (t.updateClaim e (ClaimData.settle honest)).invalidateTasks e
    [.validateClaim, .challenge, .startVerification, .verifySnapshot, .executeRelay] = w at *
  have hnote : Handled log w := handled_of_over hev hI
    (fun k hk => hgone k (List.mem_append_left _ hk)) (hgone _ (by decide))
  have hadd : Inv ((w.note (.handled .outbox log)).addTask ⟨e, n, .withdrawDeposit⟩) :=
    inv_addTask hnote (fun hk => absurd hk withdrawDeposit_stays) (fun hk => by cases hk)
      fun _ => Lifecycle.over_note.mpr (.inr ⟨log, hev, rfl⟩)
  refine hadd.mono (fun _ hc => hc) (fun _ _ hq => hq) fun log' => ?_
  simp only [World.log_note, World.log_addTask, List.mem_cons]
  exact or_left_comm

lemma wp_act (hI : Inv s) (hev : log.event? = some event) {f : Filter} {logs : List Log}
    (hc : Careful route L .indexer (.logs .outbox f) (.ok (log :: logs)) s) :
    (Indexer.act route log event).wp (protocol route L) .indexer (fun _ => Handled log) s := by
  obtain ⟨hearly, hend⟩ := hc event hev
  cases event with
  | claimed e claimer root =>
    have hp : Patient (protocol route L) .indexer (Waits s e) :=
      patient_indexer fun _ _ h hu => h.serves hu
    refine Indexer.wp_claimed hp hI ⟨hearly (by simp [Event.rank]), fun h => h⟩
      (fun t hIt _ _ => handled_of_inv hev (by simp [Event.rank]) hIt) fun ts t _ hIt ht _ => ?_
    rw [Prog.wp_bind, wp_store]
    refine ⟨fun _ => ⟨hIt, trivial⟩, fun hnone => ⟨keeps_storeClaim, trivial, keeps_addTask, trivial,
      handled_of_inv hev (by simp [Event.rank]) (inv_addTask (inv_storeClaim hIt) (fun _ => ⟨?_, ht.live⟩)
        (fun h => by cases h) fun h => by cases h)⟩⟩
    exact (World.stored_storeClaim _ _ _).mpr (.inr rfl)
  | verificationStarted e =>
    have hp : Patient (protocol route L) .indexer (Waits s e) :=
      patient_indexer fun _ _ h hu => h.serves hu
    refine Indexer.wp_verificationStarted hp hI ⟨hearly (by simp [Event.rank]), fun h => h⟩
      (fun _ ts t _ hIt _ => Indexer.wp_missingClaim (fun _ => handled_of_inv hev (by simp [Event.rank]) hIt)
        fun _ => ⟨hIt, trivial⟩) fun hstored ts n t _ _ hIt ht => ?_
    rw [Prog.wp_bind, wp_update]
    refine ⟨fun _ => ⟨hIt, trivial⟩, fun d _ => ⟨keeps_updateClaim fun _ => rfl, trivial,
      keeps_invalidateTasks, trivial, keeps_addTask, trivial, ?_⟩⟩
    refine handled_of_inv hev (by simp [Event.rank]) (inv_addTask (inv_update (fun _ => rfl) hIt)
      (fun _ => ⟨?_, fun hs => ht.live ?_⟩) (fun h => by cases h) fun h => by cases h)
    · exact (World.stored_updateClaim _ _ _ (ClaimData.startVerification _ _) fun _ => rfl).mpr
        (ht.claim hstored)
    · exact hs.imp sameHandled_invalidateTasks.struck.mp sameHandled_invalidateTasks.over.mp
  | challenged e challenger =>
    -- before the update no claim is made, after it nothing invalidated is queued
    have hp : Patient (protocol route L) .indexer fun t => s.claim? e = none → t.claim? e = none :=
      patient_indexer fun _ _ h hu hs => hu.stores e (h hs)
    have hp' : Patient (protocol route L) .indexer fun t => ∀ k ∈ invalidated, ¬t.Queued e k := by
      refine patient_indexer fun t u h hu k hk hq => ?_
      rcases hu.adds e k hq with hq | ⟨-, hq⟩
      · exact h k hk hq
      · exact h _ (by decide) hq
    refine Indexer.wp_challenged hp hp' hI (fun h => h) (fun hnone ts t _ hIt ht => ?_)
      fun hstored => ?_
    · exact Indexer.wp_missingClaim
        (fun _ => handled_of_struck hev hIt (none_of_missing hIt (ht hnone))) fun _ => ⟨hIt, trivial⟩
    · have hIu : Inv ((s.updateClaim e (ClaimData.challengeBy challenger)).invalidateTasks e
          [.validateClaim, .challenge, .startVerification, .verifySnapshot]) :=
        inv_update (fun _ => rfl) hI
      rw [Prog.wp_bind, wp_update]
      refine ⟨fun _ => ⟨hI, trivial⟩, fun d _ => ⟨keeps_updateClaim fun _ => rfl, trivial,
        keeps_invalidateTasks, trivial, hIu, fun k hk hq => ?_, fun ts u _ hIv hu => ⟨keeps_addTask,
          trivial, ?_⟩⟩⟩
      · exact ((World.queued_invalidateTasks _ _ _ _ _).mp hq).2 ⟨rfl, hk⟩
      · refine handled_of_struck hev (inv_addTask hIv (fun h => ?_) (fun h => by cases h)
          fun h => by cases h) fun k hk hq => ?_
        · exact absurd h sendSnapshot_stays
        · rcases (World.queued_addTask _ _ _ _).mp hq with hq | ⟨-, rfl⟩
          · exact hu k hk hq
          · exact absurd hk sendSnapshot_stays
  | verified e =>
    -- as long as the epoch has no claim, or is over, no relay is queued
    have hp : Patient (protocol route L) .indexer fun t =>
        t.claim? e = none ∨ Over t e → ¬t.Queued e .executeRelay := by
      refine patient_indexer fun t u h hu hs hq => ?_
      rcases hu.adds e _ hq with hq | ⟨hk, -⟩
      · rcases hs with hnone | ho
        · by_cases ht : t.claim? e = none
          · exact h (.inl ht) hq
          · exact h (.inr (hu.removes e ht hnone)) hq
        · exact h (.inr (hu.handled.over.mp ho)) hq
      · rcases hk with hk | hk <;> cases hk
    have hstart : s.claim? e = none ∨ Over s e → ¬s.Queued e .executeRelay := by
      rintro (hnone | ho)
      · exact hend rfl hnone
      · exact hI.relays e ho
    refine Indexer.wp_verified (D := fun _ _ => True) hp hI hstart (fun _ _ _ => trivial)
      (fun _ _ _ _ _ => trivial) (fun _ _ _ _ _ _ _ => trivial) (fun ts t _ hIt ht hnone => ?_)
      fun ts d root t _ _ hIt _ _ => ?_
    · exact Indexer.wp_missingClaim (fun _ => handled_of_over hev hIt (none_of_missing hIt hnone)
        (ht (.inl hnone))) fun _ => ⟨hIt, trivial⟩
    · rw [Prog.wp_bind, wp_update]
      refine ⟨fun _ => ⟨hIt, trivial⟩, fun d' _ => ⟨keeps_updateClaim fun _ => rfl, trivial,
        keeps_invalidateTasks, trivial, keeps_addTask, trivial, ?_⟩⟩
      exact handled_settle hIt hev

lemma wp_handle_inbox (hI : Inv s) (hc : ∀ e, OwnSent route L e (.inbox, log) → ¬Over s e) :
    (Indexer.handle route .inbox log).wp (protocol route L) .indexer (fun _ => Inv) s := by
  have hp : Patient (protocol route L) .indexer fun t => ∀ e, Over t e → Over s e :=
    patient_indexer fun _ _ h hu e ho => h e (hu.handled.over.mp ho)
  refine Indexer.wp_handle (D := Inv) ?_ fun t hIt => ⟨keeps_note, trivial,
    inv_note hIt fun _ h => by cases h⟩
  refine Indexer.wp_dispatchInboxEvent (fun _ => hI) (fun hsig => ?_) fun _ => ?_
  · refine Indexer.wp_handleSnapshotSent hp hI (fun _ h => h) (fun t hIt _ _ => hIt) ?_
    intro e task t hepoch _ hfrom he hkind hIt ht
    obtain ⟨hash, _, receipt, _, tx, hhash, ⟨hsigner, -⟩, ⟨hreceipt, -⟩, htx⟩ := hfrom
    have hown : OwnSent route L e (.inbox, log) :=
      ⟨hsig, hepoch, hash, receipt, hhash, hsigner.symm, hreceipt.symm, by simp [htx]⟩
    refine ⟨keeps_addTask, trivial, inv_addTask hIt (fun hk => ?_) (fun _ ho => ?_) fun hk => ?_⟩
    · rw [hkind] at hk
      exact absurd hk (by decide)
    · rw [he] at ho
      exact hc e hown (ht e ho)
    · rw [hkind] at hk
      cases hk
  · refine Indexer.wp_handleSnapshotSaved hp hI (fun _ h => h) hI fun n => ?_
    exact ⟨keeps_of_claim? (fun _ => rfl) (List.Subset.refl _), trivial,
      hI.mono (fun _ hc => hc) (fun _ _ hq => hq) (.refl s)⟩

lemma wp_handle {target : ScanTarget} {f : Filter} {logs : List Log} (hI : Inv s)
    (hc : Careful route L .indexer (.logs (Indexer.provider target) f) (.ok (log :: logs)) s) :
    (Indexer.handle route target log).wp (protocol route L) .indexer (fun _ => Inv) s := by
  cases target with
  | inbox => exact wp_handle_inbox hI hc
  | outbox =>
    have hp : Patient (protocol route L) .indexer fun _ => True :=
      patient_indexer fun _ _ _ _ => trivial
    refine Indexer.wp_handle (D := Handled log) ?_ fun t ht => ⟨keeps_note, trivial, ht⟩
    refine Indexer.wp_dispatchOutboxEvent hp hI trivial (fun hnone => ?_) fun event hev =>
      wp_act hI hev hc
    refine inv_handled hI (fun e challenger hev => ?_) fun e hev => ?_
    · rw [hnone] at hev
      cases hev
    · rw [hnone] at hev
      cases hev

/-! ### The dispatcher -/

lemma serves_of_claim? (hclaim : ∀ e, t.claim? e = s.claim? e)
    (hqueued : ∀ e k, t.Queued e k → s.Queued e k) (hlog : SameHandled s t) : Serves s t :=
  ⟨fun e k hq => .inl (hqueued e k hq), fun e hc hnone => absurd (hclaim e ▸ hnone) hc,
    fun e hc => (hclaim e).trans hc, hlog⟩

lemma clerk : Dispatcher.Clerk (protocol route L) .dispatcher where
  note o s ho _ := by
    refine ⟨serves_of_claim? (fun _ => rfl) (fun _ _ hq => hq) (sameHandled_note ?_), trivial⟩
    rintro log rfl
    exact ho
  reschedule t n s _ := ⟨serves_of_claim? (fun _ => rfl)
    (fun _ _ hq => (World.queued_rescheduleTask _ _ _ _ _).mp hq) sameHandled_rescheduleTask, trivial⟩
  remove t s _ := ⟨serves_of_claim? (fun _ => rfl)
    (fun _ _ hq => ((World.queued_removeTask _ _ _ _).mp hq).1) (.refl s), trivial⟩

/-- The withdrawals still to be executed are of epochs that are over. -/
def Ready (l : List Task) (w : World) : Prop :=
  ∀ task ∈ l, task.kind.name = .withdrawDeposit → Over w task.epoch

lemma patient_dispatcher {J : World → Prop} (h : ∀ s t, J s → Keeps s t → J t) :
    Patient (protocol route L) .dispatcher J where
  rely s t hJ ht _ := h s t hJ ht
  issue _ _ _ _ _ := trivial
  fault _ _ _ _ _ := trivial

lemma Ready.keeps {l : List Task} (h : Ready l s) (hk : Keeps s t) : Ready l t :=
  fun task hm hw => hk.over (h task hm hw)

lemma executor (task : Task) (l : List Task) :
    Dispatcher.Executor (protocol route L) .dispatcher (Ready (task :: l)) route task
      (fun _ => True) fun _ _ => True := by
  have hp : Patient (protocol route L) .dispatcher (Ready (task :: l)) :=
    patient_dispatcher fun _ _ h hk => h.keeps hk
  exact .free hp (fun _ _ => trivial) (fun _ => { hp with
    none := fun _ _ _ _ => trivial
    many := fun _ _ _ => trivial }) (fun _ => trivial) fun _ => trivial

lemma inv_finish {now : ℕ} {task : Task} {result : Except String Unit} (h : Inv s) :
    Inv (Dispatcher.finish now task result s) := by
  refine h.mono (fun e hc => ?_) (fun e k hq => ?_) sameHandled_finish
  · rwa [Dispatcher.claim?_finish]
  · exact ((Dispatcher.queued_finish _ _ _ _ _ _).mp hq).1

/-- A verdict takes the place of a task that is queued, so its epoch is open. -/
lemma inv_verdict {task : Task} {claimed root : Word} {n : ℕ} (h : Inv s)
    (hq : s.Queued task.epoch .validateClaim) :
    Inv (s.addTask ⟨task.epoch, n, Dispatcher.verdict claimed root⟩) := by
  have hname : (Dispatcher.verdict claimed root).name ∈ invalidated := by
    rcases Dispatcher.verdict_eq claimed root with h | h <;> rw [h] <;> decide
  refine inv_addTask h (fun _ => ⟨h.stored _ _ (by decide) hq, fun hs => ?_⟩) (fun hk => ?_)
    fun hk => ?_
  · exact h.struck _ _ hs (by decide) hq
  · have hk' : (Dispatcher.verdict claimed root).name = .executeRelay := hk
    rw [hk'] at hname
    exact absurd hname (by decide)
  · have hk' : (Dispatcher.verdict claimed root).name = .withdrawDeposit := hk
    rw [hk'] at hname
    exact absurd hname withdrawDeposit_stays

lemma serves_verdict {task : Task} {claimed root : Word} {n : ℕ}
    (hq : s.Queued task.epoch .validateClaim) :
    Serves s (s.addTask ⟨task.epoch, n, Dispatcher.verdict claimed root⟩) := by
  refine ⟨fun e k hq' => ?_, fun _ hc hnone => absurd hnone hc, fun _ hc => hc, sameHandled_addTask⟩
  rcases (World.queued_addTask _ _ _ _).mp hq' with hq' | ⟨rfl, rfl⟩
  · exact .inl hq'
  · refine .inr ⟨?_, hq⟩
    rcases Dispatcher.verdict_eq claimed root with h | h
    · exact .inr (congrArg TaskKind.name h)
    · exact .inl (congrArg TaskKind.name h)

lemma wp_processTask {now : ℕ} {task : Task} {l : List Task} (hI : Inv s)
    (hL : Ready (task :: l) s) : (Dispatcher.processTask route now task).wp (protocol route L)
      .dispatcher (fun _ t => Inv t ∧ Ready l t) s := by
  have hend : ∀ result t, Inv t → Ready (task :: l) t →
      Inv (Dispatcher.finish now task result t) ∧ Ready l (Dispatcher.finish now task result t) := by
    refine fun result t hIt ht => ⟨inv_finish hIt, fun x hx hw => ?_⟩
    exact sameHandled_finish.over.mpr (ht x (List.mem_cons_of_mem _ hx) hw)
  have hIn : Inv (s.note (.executing task)) := inv_note hI fun _ h => by cases h
  have hLn : Ready (task :: l) (s.note (.executing task)) := hL.keeps keeps_note
  refine Dispatcher.wp_processTask clerk trivial (Dispatcher.wp_body (executor task l) hIn hLn
    (fun result t hIt ht _ => ⟨trivial, hend _ t hIt ht⟩)
    (fun hv claimed root n t hIt ht _ ha => ?_) fun hw t hIt ht => ?_)
  · exact ⟨serves_verdict ha.2, trivial, trivial, hend _ _ (inv_verdict hIt ha.2)
      (ht.keeps keeps_addTask)⟩
  · have ho : Over t task.epoch := ht task List.mem_cons_self (by rw [hw]; rfl)
    have hready : Ready (task :: l) (t.removeClaim task.epoch) := ht
    refine ⟨⟨fun _ _ hq => .inl hq, fun e hc hnone => ?_, fun e hnone => ?_, .refl t⟩, trivial,
      trivial, hend _ _ (inv_removeClaim hIt ho) hready⟩
    · rw [World.claim?_removeClaim] at hnone
      by_cases he : e = task.epoch
      · rwa [he]
      · rw [if_neg he] at hnone
        exact absurd hnone hc
    · rw [World.claim?_removeClaim, hnone]
      exact ite_self none

end

/-! ### The runs -/

/-- Any logs in any order, and no crash. -/
def system (route : Route) (L : Ledger) : System Role World Panic Query.Answer :=
  feedSystem route (fun _ => L.Answers) fun _ _ => False

theorem covers (route : Route) (L : Ledger) :
    (protocol route L).Covers ((system route L).restrict (Careful route L)) where
  rely_refl i s := by
    cases i with
    | indexer => exact Serves.refl s
    | dispatcher => exact Keeps.refl s
  rely_trans i s t u h h' := by
    cases i with
    | indexer => exact Serves.trans h h'
    | dispatcher => exact Keeps.trans h h'
  guar_rely := Role.guar_rely (fun _ _ h => h) fun _ _ h => h
  answer _ _ _ _ h := h
  env _ _ h := h.elim
  init s h := by
    have hnone : ∀ e, ¬Over s e := by
      rintro e ⟨log, -, hm⟩
      rw [h.2.2] at hm
      cases hm
    exact ⟨fun e k _ hq => absurd hq (h.not_queued e k), fun e k _ _ hq => h.not_queued e k hq,
      fun e ho => absurd ho (hnone e), fun e hq => absurd hq (h.not_queued e _)⟩
  boot i p s t hp _ _ hI := by
    cases i with
    | indexer =>
      obtain ⟨n, rfl⟩ := hp
      exact Indexer.wp_feed (fun _ _ _ => trivial)
        (fun target log logs u hIu hu => wp_handle hIu hu.2) n hI
    | dispatcher =>
      obtain ⟨n, rfl⟩ := hp
      exact Dispatcher.wp_run (L := Ready) (patient_dispatcher fun _ _ _ _ => trivial)
        (fun s hI task hm hw => hI.withdraws _ (hw ▸ World.queued_of_mem hm))
        (fun _ _ _ hL hk _ => hL.keeps hk) (fun _ _ _ hL task hm => hL task (List.mem_of_mem_filter hm))
        (fun _ _ _ _ => wp_processTask) n hI
  durable _ _ := trivial
  restart _ _ _ h := h.elim

/-- **Invalidation is permanent, in careful runs.** Once a challenge has been handled no later
state of the run has one of the four tasks in its queue, and once the end of an epoch has been
handled none has its relay either. -/
theorem invalidated_stays (route : Route) (L : Ledger) {c c' : Config Role World Panic Query.Answer}
    (hc : ((system route L).restrict (Careful route L)).Reachable c)
    (h : ((system route L).restrict (Careful route L)).Steps c c') (e : ℕ) :
    (Struck c.store e → ∀ k ∈ invalidated, ¬c'.store.Queued e k) ∧
    (Over c.store e → (∀ k ∈ invalidated, ¬c'.store.Queued e k) ∧
      ¬c'.store.Queued e .executeRelay) := by
  have hkept : ∀ log, .handled .outbox log ∈ c.store.log → .handled .outbox log ∈ c'.store.log := by
    refine (covers route L).along (G := fun s t => ∀ log, .handled .outbox log ∈ s.log →
      .handled .outbox log ∈ t.log) (fun _ _ h => h) (fun _ _ _ h h' log hm => h' log (h log hm))
      (fun i s t hst => ?_) (fun _ _ h => h.elim) (fun _ _ h => h.elim) hc h
    cases i with
    | indexer => exact hst.handled
    | dispatcher => exact fun log => (hst.handled log).mpr
  have hI := ((covers route L).reachable (hc.steps h)).inv
  refine ⟨?_, ?_⟩
  · rintro ⟨log, challenger, hev, hm⟩ k hk
    exact hI.struck e k (.inl ⟨log, challenger, hev, hkept log hm⟩) hk
  · rintro ⟨log, hev, hm⟩
    have ho : Over c'.store e := ⟨log, hev, hkept log hm⟩
    exact ⟨fun k hk => hI.struck e k (.inr ho) hk, hI.relays e ho⟩

/-! ### A verdict that comes late -/

/-- No transaction is known. -/
def noLedger : Ledger := ⟨fun _ => none, fun _ => none⟩

/-- Every handled log is of a block up to `n`. -/
def handledUpTo (n : ℕ) (w : World) : Bool :=
  w.log.all fun o => match o with
    | .handled .outbox log => decide (log.blockNumber.getD 0 ≤ n)
    | _ => true

lemma inTurn_handing {log : Log} {o : (q : Query) → q.Answer} {w : World}
    (h : handledUpTo (log.blockNumber.getD 0) w = true) (i : Role) (q : Query) :
    InTurn i q (Sample.handing .outbox log o q) w := by
  cases i with
  | dispatcher => trivial
  | indexer =>
    cases q with
    | logs p f =>
      cases p with
      | outbox => exact fun log' ev ev' hm _ _ _ => of_decide_eq_true (List.all_eq_true.mp h _ hm)
      | inbox | ethereum => trivial
    | _ => trivial

lemma answers_handing {log : Log} {now : ℕ} {w : World} (q : Query) :
    noLedger.Answers q (Sample.handing .outbox log (Sample.node now 0) q) w := by
  cases q <;> trivial

/-- The claim is handled, and its `ValidateClaim` task waits for the root of the inbox. -/
def judging : Config Role World Panic Query.Answer :=
  Sample.hungry.play (Uniqueness.hand (Sample.claimed 5 1 3) (Sample.node 30000 0) ++
    Sample.times 3 .dispatcher (Sample.handing .outbox (Sample.claimed 5 1 3) (Sample.node 30000 0)))

/-- Meanwhile the claim is challenged; then the root comes in. -/
def lateSchedule : List (Role × ((q : Query) → q.Answer)) :=
  Uniqueness.hand (Sample.challenged 5 4) (Sample.node 30000 0) ++
    Sample.times 1 .dispatcher (Sample.handing .outbox (Sample.challenged 5 4) (Sample.node 30000 0))

lemma mem_hand {log : Log} {o : (q : Query) → q.Answer} {n : ℕ}
    {x : Role × ((q : Query) → q.Answer)}
    (hx : x ∈ Uniqueness.hand log o ++ Sample.times n .dispatcher (Sample.handing .outbox log o)) :
    x.2 = Sample.handing .outbox log o := by
  rcases List.mem_append.mp hx with hx | hx
  · rw [List.eq_of_mem_replicate hx]
  · rw [List.eq_of_mem_replicate hx]

/-- The verdict outlives the challenge. -/
theorem verdict_revived : ∃ c, ((system Sample.route noLedger).restrict InTurn).Reachable c ∧
    Struck c.store 5 ∧ c.store.Queued 5 .startVerification := by
  have hanswer : ∀ (log : Log) (n : ℕ), ∀ x ∈ Uniqueness.hand log (Sample.node 30000 0) ++
      Sample.times n .dispatcher (Sample.handing .outbox log (Sample.node 30000 0)), ∀ q w,
      handledUpTo (log.blockNumber.getD 0) w = true →
      ((system Sample.route noLedger).restrict InTurn).answer x.1 q (x.2 q) w := by
    intro log n x hx q w hw
    rw [mem_hand hx]
    exact ⟨answers_handing q, inTurn_handing hw x.1 q⟩
  have hboot : ((system Sample.route noLedger).restrict InTurn).Reachable Sample.hungry := by
    refine .init ⟨rfl, rfl, rfl⟩ ?_
    rintro (_ | _)
    · exact ⟨4, rfl⟩
    · exact ⟨2, rfl⟩
  have hjudging := System.reachable_visits Sample.mem_roles (hanswer (Sample.claimed 5 1 3) 3) hboot
    (by decide +kernel) (by decide +kernel)
  refine ⟨judging.play lateSchedule, System.reachable_visits Sample.mem_roles
    (hanswer (Sample.challenged 5 4) 1) hjudging (by decide +kernel) (by decide +kernel),
    ⟨Sample.challenged 5 4, 8, by decide, by decide +kernel⟩, by decide +kernel⟩

/-! ### A challenge in time -/

lemma careful_silent (route : Route) (L : Ledger) {log : Log} {w : World}
    (hev : ∀ ev, log.event? = some ev → (ev.rank ≤ 1 → ¬(Struck w ev.epoch ∨ Over w ev.epoch)) ∧
      ev ≠ .verified ev.epoch) (i : Role) (q : Query) :
    Careful route L i q (Sample.handing .outbox log Lifecycle.silent q) w := by
  cases i with
  | dispatcher => cases q <;> trivial
  | indexer =>
    cases q with
    | logs p f =>
      cases p with
      | outbox => exact fun ev h => ⟨(hev ev h).1, fun heq => absurd heq (hev ev h).2⟩
      | inbox | ethereum => trivial
    | _ => trivial

/-- A claim and its challenge are handled. -/
def struckOut : Config Role World Panic Query.Answer :=
  (Sample.hungry.play (Uniqueness.hand (Sample.claimed 5 1 3) Lifecycle.silent)).play
    (Uniqueness.hand (Sample.challenged 5 4) Lifecycle.silent)

lemma reachable_struckOut :
    ((system Sample.route noLedger).restrict (Careful Sample.route noLedger)).Reachable struckOut := by
  have hanswers : ∀ (log : Log) (q : Query) (w : World),
      noLedger.Answers q (Sample.handing .outbox log Lifecycle.silent q) w := by
    intro log q w
    cases q <;> trivial
  have hclaimed : (Sample.claimed 5 1 3).event? = some (.claimed 5 9 1) := by decide
  have hchallenged : (Sample.challenged 5 4).event? = some (.challenged 5 8) := by decide
  have hfirst : ((system Sample.route noLedger).restrict
      (Careful Sample.route noLedger)).Reachable
        (Sample.hungry.play (Uniqueness.hand (Sample.claimed 5 1 3) Lifecycle.silent)) := by
    refine System.reachable_visits Sample.mem_roles (p := fun w => w.log.isEmpty)
      (fun x hx q w hw => ?_) (.init ⟨rfl, rfl, rfl⟩ ?_) (by decide +kernel) (by decide +kernel)
    · have hempty : w.log = [] := List.isEmpty_iff.mp hw
      rw [List.eq_of_mem_replicate hx]
      refine ⟨hanswers _ q w, careful_silent _ _ (fun ev hev => ⟨fun _ => ?_, ?_⟩) _ q⟩
      · rintro (⟨_, _, -, hm⟩ | ⟨_, -, hm⟩)
        · rw [hempty] at hm
          cases hm
        · rw [hempty] at hm
          cases hm
      · rw [hclaimed] at hev
        cases hev
        exact fun h => by cases h
    · rintro (_ | _)
      · exact ⟨4, rfl⟩
      · exact ⟨2, rfl⟩
  refine System.reachable_play Sample.mem_roles (fun x hx q w => ?_) hfirst (by decide +kernel)
  rw [List.eq_of_mem_replicate hx]
  refine ⟨hanswers _ q w, careful_silent _ _ (fun ev hev => ?_) _ q⟩
  rw [hchallenged] at hev
  cases hev
  exact ⟨fun h => absurd h (by simp [Event.rank]), fun h => by cases h⟩

theorem invalidated_stays_sample : ¬struckOut.store.Queued 5 .validateClaim :=
  (invalidated_stays Sample.route noLedger reachable_struckOut .refl 5).1
    ⟨Sample.challenged 5 4, 8, by decide, by decide +kernel⟩ _ (by decide)

end Invalidation

end VeaValidator
