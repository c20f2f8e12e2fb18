import VeaValidator.Interleaving
import VeaValidator.Writes

/-!
Fraudulent claims are not forgotten.

A stored claim with a wrong root, not challenged and not settled, is an obligation of its epoch.
It is carried by a `ValidateClaim` task, then by a `Challenge` task, and then by a challenge that
has gone through. The obligation is only lost where the dispatcher removes one of the two tasks
right after it has rescheduled it.
-/

namespace VeaValidator

open Coop

namespace Fraud

variable (snap : ℕ → Word)

/-- The stored claim of `e` has a wrong root, and nobody has challenged or settled it. -/
def Obliged (w : World) (e : ℕ) : Prop :=
  ∃ d, w.claim? e = some d ∧ d.stateRoot ≠ snap e ∧ d.challenger = 0 ∧ partyOf d.honest = .none

/-- `challenge::execute` has returned `Ok` for `e`. -/
def Challenged (w : World) (e : ℕ) : Prop :=
  ∃ t, t.epoch = e ∧ t.kind = .challenge ∧ .returned t (.ok ()) ∈ w.log

/-- A line that says so. -/
def challengedBy (e : ℕ) : Obs → Bool
  | .returned t (.ok _) => t.epoch = e ∧ t.kind = .challenge
  | _ => false

lemma any_challengedBy {w : World} {e : ℕ} : w.log.any (challengedBy e) = true ↔ Challenged w e := by
  rw [List.any_eq_true]
  constructor
  · rintro ⟨o, ho, hc⟩
    cases o with
    | returned t r =>
      cases r with
      | ok u =>
        obtain ⟨he, hk⟩ : t.epoch = e ∧ t.kind = .challenge := by simpa [challengedBy] using hc
        exact ⟨t, he, hk, ho⟩
      | error err => cases hc
    | _ => cases hc
  · rintro ⟨t, he, hk, hm⟩
    exact ⟨_, hm, by simp [challengedBy, he, hk]⟩

instance (w : World) (e : ℕ) : Decidable (Challenged w e) := decidable_of_iff _ any_challengedBy

def Carried (w : World) (e : ℕ) : Prop :=
  w.Queued e .validateClaim ∨ w.Queued e .challenge ∨ Challenged w e

instance (w : World) (e : ℕ) : Decidable (Carried w e) := inferInstanceAs (Decidable (_ ∨ _ ∨ _))

/-- A `ValidateClaim` or `Challenge` task of `e` has been rescheduled. -/
def Rescheduled (w : World) (e : ℕ) : Prop :=
  ∃ t n, t.epoch = e ∧ (t.kind = .validateClaim ∨ t.kind = .challenge) ∧ .rescheduling t n ∈ w.log

/-- A `VerificationStarted` log of `e` has been handled. -/
def Started (w : World) (e : ℕ) : Prop :=
  ∃ log, log.event? = some (.verificationStarted e) ∧ .handled .outbox log ∈ w.log

structure Inv (w : World) : Prop where
  carried : ∀ e, Obliged snap w e → Carried w e ∨ Rescheduled w e
  started : ∀ e, w.Queued e .verifySnapshot → Started w e

/-- The stored claims stay, with their roots, and so does the log. -/
structure Kept (s t : World) : Prop where
  root : ∀ e d, s.claim? e = some d → ∃ d', t.claim? e = some d' ∧ d'.stateRoot = d.stateRoot
  log : s.log ⊆ t.log

variable {snap} {s t : World} {e : ℕ}

lemma Challenged.mono (h : s.log ⊆ t.log) (hc : Challenged s e) : Challenged t e := by
  obtain ⟨task, he, hk, hm⟩ := hc
  exact ⟨task, he, hk, h hm⟩

lemma Rescheduled.mono (h : s.log ⊆ t.log) (hr : Rescheduled s e) : Rescheduled t e := by
  obtain ⟨task, n, he, hk, hm⟩ := hr
  exact ⟨task, n, he, hk, h hm⟩

lemma Started.mono (h : s.log ⊆ t.log) (hs : Started s e) : Started t e := by
  obtain ⟨log, hev, hm⟩ := hs
  exact ⟨log, hev, h hm⟩

/-- The obligation of an epoch stays carried while its carriers stay. -/
lemma carry (hlog : s.log ⊆ t.log)
    (hqueue : ∀ k, k = .validateClaim ∨ k = .challenge → s.Queued e k → t.Queued e k)
    (h : Carried s e ∨ Rescheduled s e) : Carried t e ∨ Rescheduled t e := by
  rcases h with (hv | hc | hc) | hr
  · exact .inl (.inl (hqueue _ (.inl rfl) hv))
  · exact .inl (.inr (.inl (hqueue _ (.inr rfl) hc)))
  · exact .inl (.inr (.inr (hc.mono hlog)))
  · exact .inr (hr.mono hlog)

/-- What concerns the claim or the tasks of one epoch only has to be looked at there. -/
lemma Inv.step (h : Inv snap s) (e : ℕ) (hlog : s.log ⊆ t.log)
    (hclaim : ∀ e', e' ≠ e → t.claim? e' = s.claim? e')
    (hqueue : ∀ e' k, e' ≠ e → (t.Queued e' k ↔ s.Queued e' k))
    (he : Obliged snap t e → Carried t e ∨ Rescheduled t e)
    (hs : t.Queued e .verifySnapshot → Started t e) : Inv snap t := by
  constructor
  · intro e'
    by_cases hee : e' = e
    · subst hee
      exact he
    rintro ⟨d, hd, hrest⟩
    have hs := h.carried e' ⟨d, by rw [← hclaim e' hee, hd], hrest⟩
    exact carry hlog (fun k _ => (hqueue e' k hee).mpr) hs
  · intro e' hq
    by_cases hee : e' = e
    · subst hee
      exact hs hq
    · exact (h.started e' ((hqueue e' _ hee).mp hq)).mono hlog

lemma Inv.grow (h : Inv snap s) (hlog : s.log ⊆ t.log) (hclaim : ∀ e, t.claim? e = s.claim? e)
    (hqueue : ∀ e k, s.Queued e k → t.Queued e k)
    (hs : ∀ e, t.Queued e .verifySnapshot → s.Queued e .verifySnapshot) : Inv snap t := by
  constructor
  · rintro e ⟨d, hd, hrest⟩
    exact carry hlog (fun k _ => hqueue e k) (h.carried e ⟨d, by rw [← hclaim e, hd], hrest⟩)
  · exact fun e hq => (h.started e (hs e hq)).mono hlog

lemma inv_note {o : Obs} (h : Inv snap s) : Inv snap (s.note o) :=
  h.grow (List.subset_cons_self _ _) (fun _ => rfl) (fun _ _ hq => hq) fun _ hq => hq

lemma inv_addTask {task : Task} (hk : task.kind.name ≠ .verifySnapshot) (h : Inv snap s) :
    Inv snap (s.addTask task) := by
  refine h.grow (List.subset_cons_self _ _) (fun _ => rfl) (fun _ _ hq => by simp [hq]) ?_
  intro e hq
  rcases (World.queued_addTask _ _ _ _).mp hq with hq | ⟨-, hname⟩
  · exact hq
  · exact absurd hname.symm hk

/-- A turn of the dispatcher. After a verdict the `Challenge` task has to be there already;
every other way to lose a carrier leaves its line in the log. -/
lemma inv_finish {now : ℕ} {task : Task} {result : Except String Unit} (h : Inv snap s)
    (hv : task.kind = .validateClaim → result = .ok () → Obliged snap s task.epoch →
      s.Queued task.epoch .challenge) : Inv snap (Dispatcher.finish now task result s) := by
  refine h.step task.epoch (Dispatcher.log_subset_finish now task result s)
    (fun e' _ => by simp) (fun e' k he' => by simp [he']) ?_ fun hq =>
      (h.started _ ((Dispatcher.queued_finish _ _ _ _ _ _).mp hq).1).mono
        (Dispatcher.log_subset_finish now task result s)
  rintro ⟨d, hd, hrest⟩
  rw [Dispatcher.claim?_finish] at hd
  have ho : Obliged snap s task.epoch := ⟨d, hd, hrest⟩
  have hlog := Dispatcher.log_finish now task result s
  by_cases hdone : Dispatcher.completes task result ∧
      (task.kind = .validateClaim ∨ task.kind = .challenge)
  · obtain ⟨hdone, hkind⟩ := hdone
    rcases result with err | ⟨⟩
    · obtain ⟨delay, hdelay⟩ := Option.isSome_iff_exists.mp hdone
      refine .inr ⟨task, u64 (now + delay), rfl, hkind, ?_⟩
      rw [hlog]
      simp only [hdelay]
      exact List.mem_cons_of_mem _ List.mem_cons_self
    · rcases hkind with hkind | hkind
      · exact .inl (.inr (.inl (by simp [hv hkind rfl ho, hkind, TaskKind.name])))
      · refine .inl (.inr (.inr ⟨task, rfl, hkind, ?_⟩))
        rw [hlog]
        exact List.mem_cons_of_mem _ List.mem_cons_self
  · refine carry (Dispatcher.log_subset_finish now task result s) (fun k hk hq => ?_)
      (h.carried task.epoch ho)
    rw [Dispatcher.queued_finish]
    refine ⟨hq, fun ⟨hd, _, hkind⟩ => hdone ⟨hd, ?_⟩⟩
    rcases hk with rfl | rfl
    · exact .inl (TaskKind.eq_validateClaim hkind.symm)
    · exact .inr (TaskKind.eq_challenge hkind.symm)

/-! ### The handlers -/

lemma inv_fresh {root : Word} {claimer : Address} {ts ts' : ℕ} (h : Inv snap s) :
    Inv snap ((s.storeClaim (ClaimData.fresh e root claimer ts)).addTask
      ⟨e, ts', .validateClaim⟩) := by
  have hlog : s.log ⊆ ((s.storeClaim (ClaimData.fresh e root claimer ts)).addTask
      ⟨e, ts', .validateClaim⟩).log := List.subset_cons_self _ _
  refine h.step e hlog (fun e' he' => ?_) (fun e' k he' => by simp [he'])
    (fun _ => .inl (.inl (by simp [TaskKind.name]))) fun hq => ?_
  · simp [ClaimData.fresh, Ne.symm he']
  · exact (h.started e (by simpa [TaskKind.name] using hq)).mono hlog

/-- The one handler that queues a `VerifySnapshot` task; its line in the log follows. -/
lemma inv_startVerification {ts n ts' : ℕ} {log : Log} (h : Inv snap s)
    (hev : log.event? = some (.verificationStarted e)) :
    Inv snap ((((s.updateClaim e (ClaimData.startVerification ts n)).invalidateTasks e
      [.startVerification]).addTask ⟨e, ts', .verifySnapshot⟩).note (.handled .outbox log)) := by
  have hclaim : ∀ e', (s.updateClaim e (ClaimData.startVerification ts n)).claim? e' =
      if e' = e then (s.claim? e).map (ClaimData.startVerification ts n) else s.claim? e' :=
    fun e' => World.claim?_updateClaim s e' e _ fun _ => rfl
  have hlog : s.log ⊆ ((((s.updateClaim e (ClaimData.startVerification ts n)).invalidateTasks e
      [.startVerification]).addTask ⟨e, ts', .verifySnapshot⟩).note (.handled .outbox log)).log :=
    List.Subset.trans (World.log_subset_invalidateTasks _ e _)
      (List.Subset.trans (List.subset_cons_self _ _) (List.subset_cons_self _ _))
  refine h.step e hlog (fun e' he' => by simp [hclaim, he'])
    (fun e' k he' => by simp [he']) ?_ fun _ => ⟨log, hev, List.mem_cons_self⟩
  rintro ⟨d, hd, hrest⟩
  simp only [World.claim?_note, World.claim?_addTask, World.claim?_invalidateTasks, hclaim,
    if_true, Option.map_eq_some_iff] at hd
  obtain ⟨d', hd', rfl⟩ := hd
  refine carry hlog (fun k hk hq => ?_) (h.carried e ⟨d', hd', hrest⟩)
  rcases hk with rfl | rfl <;> simp [hq]

lemma inv_challengeBy {challenger : Address} (hc : challenger ≠ 0) (h : Inv snap s)
    {ks : List KindName} :
    Inv snap ((s.updateClaim e (ClaimData.challengeBy challenger)).invalidateTasks e ks) := by
  have hclaim : ∀ e', (s.updateClaim e (ClaimData.challengeBy challenger)).claim? e' =
      if e' = e then (s.claim? e).map (ClaimData.challengeBy challenger) else s.claim? e' :=
    fun e' => World.claim?_updateClaim s e' e _ fun _ => rfl
  have hlog := World.log_subset_invalidateTasks
    (s.updateClaim e (ClaimData.challengeBy challenger)) e ks
  refine h.step e hlog (fun e' he' => by simp [hclaim, he']) (fun e' k he' => by simp [he']) ?_
    fun hq => (h.started e (by simpa using ((World.queued_invalidateTasks _ _ _ _ _).mp hq).1)).mono
      hlog
  rintro ⟨d, hd, _, hzero, _⟩
  simp only [World.claim?_invalidateTasks, hclaim, if_true, Option.map_eq_some_iff] at hd
  obtain ⟨d', -, rfl⟩ := hd
  exact absurd hzero hc

lemma inv_settle {honest : String} (hp : partyOf honest ≠ .none) (h : Inv snap s)
    {ks : List KindName} :
    Inv snap ((s.updateClaim e (ClaimData.settle honest)).invalidateTasks e ks) := by
  have hclaim : ∀ e', (s.updateClaim e (ClaimData.settle honest)).claim? e' =
      if e' = e then (s.claim? e).map (ClaimData.settle honest) else s.claim? e' :=
    fun e' => World.claim?_updateClaim s e' e _ fun _ => rfl
  have hlog := World.log_subset_invalidateTasks (s.updateClaim e (ClaimData.settle honest)) e ks
  refine h.step e hlog (fun e' he' => by simp [hclaim, he']) (fun e' k he' => by simp [he']) ?_
    fun hq => (h.started e (by simpa using ((World.queued_invalidateTasks _ _ _ _ _).mp hq).1)).mono
      hlog
  rintro ⟨d, hd, _, _, hnone⟩
  simp only [World.claim?_invalidateTasks, hclaim, if_true, Option.map_eq_some_iff] at hd
  obtain ⟨d', -, rfl⟩ := hd
  exact absurd hnone hp

lemma inv_removeClaim (h : Inv snap s) : Inv snap (s.removeClaim e) := by
  refine h.step e (List.Subset.refl _) (fun e' he' => by simp [he']) (fun e' k _ => Iff.rfl) ?_
    (h.started e)
  rintro ⟨d, hd, _⟩
  simp at hd

lemma Kept.of_claim? (h : ∀ e, t.claim? e = s.claim? e) (hlog : s.log ⊆ t.log) : Kept s t :=
  ⟨fun e d hd => ⟨d, by rw [h e, hd], rfl⟩, hlog⟩

lemma Kept.trans {u : World} (h : Kept s t) (h' : Kept t u) : Kept s u := by
  refine ⟨fun e d hd => ?_, List.Subset.trans h.log h'.log⟩
  obtain ⟨d', hd', hroot⟩ := h.root e d hd
  obtain ⟨d'', hd'', hroot'⟩ := h'.root e d' hd'
  exact ⟨d'', hd'', hroot'.trans hroot⟩

lemma kept_note {o : Obs} : Kept s (s.note o) :=
  .of_claim? (fun _ => rfl) (List.subset_cons_self _ _)

lemma kept_addTask {task : Task} : Kept s (s.addTask task) :=
  .of_claim? (fun _ => rfl) (List.subset_cons_self _ _)

lemma kept_invalidateTasks {ks : List KindName} : Kept s (s.invalidateTasks e ks) :=
  .of_claim? (fun _ => rfl) (World.log_subset_invalidateTasks _ e ks)

lemma kept_storeClaim {c : ClaimData} : Kept s (s.storeClaim c) :=
  ⟨fun e d hd => ⟨d, by simp [hd], rfl⟩, List.Subset.refl _⟩

lemma kept_updateClaim {f : ClaimData → ClaimData} (hf : ∀ c, (f c).epoch = c.epoch)
    (hroot : ∀ c, (f c).stateRoot = c.stateRoot) : Kept s (s.updateClaim e f) := by
  refine ⟨fun e' d hd => ?_, List.Subset.refl _⟩
  rw [World.claim?_updateClaim s e' e f hf]
  by_cases he : e' = e
  · subst he
    exact ⟨f d, by simp [hd], hroot d⟩
  · exact ⟨d, by simp [he, hd], rfl⟩

/-! ### The protocol -/

/-- What holds when `verifySnapshot` is sent for an epoch. -/
def SentAsStored (q : Query) (w : World) : Prop :=
  match q with
  | .send (.verifySnapshot e c) => Started w e ∧
      ∃ d, w.claim? e = some d ∧ d.challenger = 0 ∧ c = d.toClaim
  | _ => True

/-- The obligations are carried whenever nobody runs; the indexer keeps the stored roots. -/
@[simps]
def protocol (snap : ℕ → Word) : Protocol Role World Panic Query.Answer where
  inv := Inv snap
  durable _ := True
  rely
    | .indexer, _, _ => True
    | .dispatcher, s, t => Kept s t
  guar
    | .indexer, s, t => Kept s t
    | .dispatcher, _, _ => True
  answer := SnapshotsAre snap
  issue _ := SentAsStored
  fault _ _ _ := True

lemma issue_passive {q : Query} (hq : q.Passive) : SentAsStored q s := by
  cases q with
  | send tx => exact hq.elim
  | _ => trivial

lemma patient_indexer : Patient (protocol snap) .indexer fun _ => True where
  rely _ _ _ _ _ := trivial
  issue _ _ hq _ _ := issue_passive hq
  fault _ _ _ _ _ := trivial

/-- The logs of the outbox: whoever challenges is somebody. -/
def Genuine (logs : List (ScanTarget × Log)) : Prop :=
  ∀ l ∈ logs, ∀ e challenger, l.2.event? = some (.challenged e challenger) → challenger ≠ 0

lemma wp_act {route : Route} {log : Log} {event : Event} (hI : Inv snap s)
    (hev : log.event? = some event)
    (hc : ∀ e challenger, event = .challenged e challenger → challenger ≠ 0) :
    (Indexer.act route log event).wp (protocol snap) .indexer
      (fun _ t => Inv snap (t.note (.handled .outbox log))) s := by
  have hp : Patient (protocol snap) .indexer fun _ => True := patient_indexer
  cases event with
  | claimed e claimer root =>
    refine Indexer.wp_claimed hp hI trivial (fun t hIt _ _ => inv_note hIt)
      fun ts t _ hIt _ _ => ?_
    simp only [Prog.wp_bind, wp_store, wp_addTask, protocol_guar, protocol_durable,
      protocol_inv, protocol_fault]
    exact ⟨fun _ => ⟨hIt, trivial⟩, fun _ => ⟨kept_storeClaim, trivial, kept_addTask, trivial,
      inv_note (inv_fresh hIt)⟩⟩
  | verificationStarted e =>
    refine Indexer.wp_verificationStarted hp hI trivial (fun _ ts t _ hIt _ => ?_)
      fun _ ts n t _ _ hIt _ => ?_
    · exact Indexer.wp_missingClaim (fun _ => inv_note hIt) fun _ => ⟨hIt, trivial⟩
    · simp only [Prog.wp_bind, wp_update, wp_invalidateTasks, wp_addTask, protocol_guar,
        protocol_durable, protocol_inv, protocol_fault]
      exact ⟨fun _ => ⟨hIt, trivial⟩, fun d _ => ⟨kept_updateClaim (fun _ => rfl) fun _ => rfl,
        trivial, kept_invalidateTasks, trivial, kept_addTask, trivial,
        inv_startVerification hIt hev⟩⟩
  | challenged e challenger =>
    refine Indexer.wp_challenged hp hp hI trivial (fun _ ts t _ hIt _ => ?_) fun _ => ?_
    · exact Indexer.wp_missingClaim (fun _ => inv_note hIt) fun _ => ⟨hIt, trivial⟩
    · simp only [Prog.wp_bind, wp_update, wp_invalidateTasks, wp_addTask, protocol_guar,
        protocol_durable, protocol_inv, protocol_fault]
      refine ⟨fun _ => ⟨hI, trivial⟩, fun d _ => ⟨kept_updateClaim (fun _ => rfl) fun _ => rfl,
        trivial, kept_invalidateTasks, trivial, inv_challengeBy (hc e challenger rfl) hI, trivial,
        fun ts u _ hIu _ => ⟨kept_addTask, trivial, ?_⟩⟩⟩
      exact inv_note (inv_addTask (by simp [TaskKind.name]) hIu)
  | verified e =>
    refine Indexer.wp_verified (D := fun _ _ => True) hp hI trivial (fun _ _ _ => trivial)
      (fun _ _ _ _ _ => trivial) (fun _ _ _ _ _ _ _ => trivial) (fun ts t _ hIt _ _ => ?_)
      fun ts d root t _ _ hIt _ _ => ?_
    · exact Indexer.wp_missingClaim (fun _ => inv_note hIt) fun _ => ⟨hIt, trivial⟩
    · have hparty : partyOf (if d.stateRoot = root then "Claimer" else "Challenger") ≠ .none := by
        split <;> decide
      simp only [Prog.wp_bind, wp_update, wp_invalidateTasks, wp_addTask, protocol_guar,
        protocol_durable, protocol_inv, protocol_fault]
      refine ⟨fun _ => ⟨hIt, trivial⟩, fun d' _ => ⟨kept_updateClaim (fun _ => rfl) fun _ => rfl,
        trivial, kept_invalidateTasks, trivial, kept_addTask, trivial, ?_⟩⟩
      exact inv_note (inv_addTask (by simp [TaskKind.name]) (inv_settle hparty hIt))

lemma wp_handle {route : Route} {target : ScanTarget} {log : Log} (hI : Inv snap s)
    (hc : ∀ e challenger, log.event? = some (.challenged e challenger) → challenger ≠ 0) :
    (Indexer.handle route target log).wp (protocol snap) .indexer (fun _ => Inv snap) s := by
  have hp : Patient (protocol snap) .indexer fun _ => True := patient_indexer
  cases target with
  | inbox =>
    have hdispatch : Prog.Keeps (protocol snap) .indexer (fun _ => True)
        (Indexer.dispatch route .inbox log) := by
      refine (confined_dispatch .inbox log).keeps hp (fun t u hIt _ hw => ?_) fun _ _ _ _ _ => trivial
      cases hw with
      | relay task hsig hepoch hkind =>
        exact ⟨kept_addTask, trivial, inv_addTask (by simp [hkind]) hIt, trivial⟩
      | save n =>
        exact ⟨.of_claim? (fun _ => rfl) (List.Subset.refl _), trivial,
          hIt.grow (List.Subset.refl _) (fun _ => rfl) (fun _ _ hq => hq) fun _ hq => hq, trivial⟩
    exact Indexer.wp_handle (hdispatch s hI trivial)
      fun t ht => ⟨kept_note, trivial, inv_note ht.1⟩
  | outbox =>
    refine Indexer.wp_handle (D := fun t => Inv snap (t.note (.handled .outbox log))) ?_
      fun t hIt => ⟨kept_note, trivial, hIt⟩
    refine Indexer.wp_dispatchOutboxEvent hp hI trivial (fun _ => inv_note hI) fun event hev => ?_
    exact wp_act hI hev fun e challenger h => hc e challenger (h ▸ hev)

/-! ### The dispatcher -/

lemma patient_dispatcher {J : World → Prop} (hJ : ∀ s t, J s → Kept s t → J t) :
    Patient (protocol snap) .dispatcher J where
  rely s t hs ht _ := hJ s t hs ht
  issue _ _ hq _ _ := issue_passive hq
  fault _ _ _ _ _ := trivial

lemma clerk : Dispatcher.Clerk (protocol snap) .dispatcher where
  note _ _ _ _ := ⟨trivial, trivial⟩
  reschedule _ _ _ _ := ⟨trivial, trivial⟩
  remove _ _ _ := ⟨trivial, trivial⟩

/-- The `VerifySnapshot` tasks of a list come from handled logs. -/
def AllStarted (l : List Task) (w : World) : Prop :=
  ∀ task ∈ l, task.kind = .verifySnapshot → Started w task.epoch

lemma AllStarted.mono {l l' : List Task} (h : AllStarted l s) (hl : l' ⊆ l)
    (hlog : s.log ⊆ t.log) : AllStarted l' t :=
  fun task htask hk => (h task (hl htask) hk).mono hlog

/-- While the dispatcher waits the claim it judges stays in the store, with its root. -/
lemma executor (route : Route) (task : Task) (l : List Task) :
    Dispatcher.Executor (protocol snap) .dispatcher (AllStarted (task :: l)) route task
      (fun _ => True) fun root t => ∃ d, t.claim? task.epoch = some d ∧ d.stateRoot = root :=
  have hp : Patient (protocol snap) .dispatcher (AllStarted (task :: l)) :=
    patient_dispatcher fun s t hs ht => hs.mono (List.Subset.refl _) ht.log
  { hp with
    reads := fun _ => { hp with none := fun _ _ _ _ => trivial, many := fun _ _ _ => trivial }
    unknownRoute := fun _ _ _ => trivial
    undetermined := fun _ _ _ _ _ _ _ => trivial
    claim := fun _ _ _ _ _ => trivial
    root := fun _ d _ _ hd => ⟨d, hd, rfl⟩
    rootStays := by
      rintro root s t ⟨d, hd, rfl⟩ _ hkept _
      exact hkept.root _ d hd
    send := by
      intro tx s hsent _ hL
      cases tx with
      | verifySnapshot e c =>
        obtain ⟨rfl, hk, hd⟩ := hsent
        exact ⟨hL task List.mem_cons_self hk, hd⟩
      | _ => trivial
    withdraw := fun _ _ _ _ => ⟨trivial, trivial⟩ }

lemma wp_processTask {route : Route} {now : ℕ} {task : Task} {l : List Task} (hI : Inv snap s)
    (hL : AllStarted (task :: l) s) :
    (Dispatcher.processTask route now task).wp (protocol snap) .dispatcher
      (fun _ t => Inv snap t ∧ AllStarted l t) s := by
  have hIn : Inv snap (s.note (.executing task)) := inv_note hI
  have hLn : AllStarted (task :: l) (s.note (.executing task)) :=
    hL.mono (List.Subset.refl _) (List.subset_cons_self _ _)
  have hend : ∀ result t u, AllStarted (task :: l) t → t.log ⊆ u.log →
      AllStarted l (Dispatcher.finish now task result u) := fun result t u hLt hlog =>
    hLt.mono (List.subset_cons_self _ _)
      (List.Subset.trans hlog (Dispatcher.log_subset_finish now task result u))
  refine Dispatcher.wp_processTask clerk trivial (Dispatcher.wp_body (executor route task l) hIn hLn
    (fun result t hIt hLt hnot => ?_) (fun hv claimed root n t hIt hLt hD ha => ?_)
    fun hw t hIt hLt => ?_)
  · have hIf : Inv snap (Dispatcher.finish now task result t) :=
      inv_finish hIt fun hv hok _ => absurd hok (hnot hv)
    exact ⟨trivial, hIf, hend _ t t hLt (List.Subset.refl _)⟩
  · -- the root that was compared is still the stored one when the verdict is written
    have hIa : Inv snap (t.addTask ⟨task.epoch, n, Dispatcher.verdict claimed root⟩) :=
      inv_addTask (by rcases Dispatcher.verdict_eq claimed root with h | h <;> simp [h, TaskKind.name])
        hIt
    refine ⟨trivial, trivial, trivial, inv_finish hIa fun _ _ ho => ?_,
      hend _ t _ hLt (List.subset_cons_self _ _)⟩
    obtain ⟨d, hd, hroot, -⟩ := ho
    obtain ⟨d', hd', rfl⟩ := hD
    rw [World.claim?_addTask, hd'] at hd
    cases hd
    have hne : d.stateRoot ≠ root := fun heq => hroot (heq.trans ha)
    simp [Dispatcher.verdict, hne, TaskKind.name]
  · have hIf : Inv snap (Dispatcher.finish now task (.ok ()) (t.removeClaim task.epoch)) :=
      inv_finish (inv_removeClaim hIt) fun hv => by simp [hw] at hv
    exact ⟨trivial, trivial, trivial, hIf, hend _ t _ hLt (List.Subset.refl _)⟩

/-- A route with its handlers fed by genuine logs, never stopped. -/
def system (route : Route) (snap : ℕ → Word) : System Role World Panic Query.Answer :=
  handlerSystem route Genuine (SnapshotsAre snap) fun _ _ => False

theorem covers (route : Route) (snap : ℕ → Word) : (protocol snap).Covers (system route snap) where
  rely_refl i s := by
    cases i with
    | indexer => trivial
    | dispatcher => exact .of_claim? (fun _ => rfl) (List.Subset.refl _)
  rely_trans i s t u h h' := by
    cases i with
    | indexer => trivial
    | dispatcher => exact Kept.trans h h'
  guar_rely := Role.guar_rely (fun _ _ h => h) fun _ _ _ => trivial
  answer _ _ _ _ h := h
  env _ _ h := h.elim
  init s h := by
    constructor
    · rintro e ⟨d, hd, -⟩
      rw [h.claim?] at hd
      cases hd
    · exact fun e hq => absurd hq (h.not_queued e _)
  boot i p s t hp _ _ hI := by
    cases i with
    | indexer =>
      obtain ⟨logs, hlogs, rfl⟩ := hp
      have hstep : ∀ target log l s, Inv snap s → Genuine ((target, log) :: l) →
          (Indexer.handle route target log).wp (protocol snap) .indexer
            (fun _ t => Inv snap t ∧ Genuine l) s := fun target log l s hIs hG =>
        Prog.wp_mono (fun _ t hIt => ⟨hIt, fun b hb => hG b (List.mem_cons_of_mem _ hb)⟩)
          (wp_handle hIs (hG _ List.mem_cons_self))
      exact Prog.wp_mono (fun _ t ht => ht.1) (Indexer.wp_deliver (L := fun l _ => Genuine l)
        (fun _ _ => trivial) (fun _ _ _ h _ _ => h) hstep hI hlogs)
    | dispatcher =>
      obtain ⟨n, rfl⟩ := hp
      refine Dispatcher.wp_run (L := AllStarted) (patient_dispatcher fun _ _ h _ => h)
        (fun s hIs task htask hk => ?_) (fun l s t hL hrel _ => hL.mono (List.Subset.refl _) hrel.log)
        (fun l p s hL => hL.mono ((List.filter_subset_self l)) (List.Subset.refl _))
        (fun now task l s hIs hL => wp_processTask hIs hL) n hI
      exact hIs.started _ (by simpa [hk, TaskKind.name] using World.queued_of_mem htask)
  durable _ _ := trivial
  restart _ _ _ h := h.elim

/-- **Fraud is not forgotten unless a task is rescheduled.** In every state of every run, a
wrong claim that nobody has challenged or settled has its `ValidateClaim` or `Challenge` task
in the queue, or has been challenged by this validator, as long as no such task of its epoch has
been rescheduled. -/
theorem fraud_carried (route : Route) (snap : ℕ → Word) {c : Config Role World Panic Query.Answer}
    (hc : (system route snap).Reachable c) {e : ℕ} (hno : ¬Rescheduled c.store e)
    (ho : Obliged snap c.store e) : Carried c.store e :=
  (((covers route snap).reachable hc).inv.carried e ho).resolve_right hno

/-- **What is known of a claim whose verification the validator finishes.** When
`verifySnapshot` is sent for an epoch, its `VerificationStarted` log has been handled and the
claim that is sent is the stored one, not challenged. Its root is the inbox's, or the claim has
been settled, or the fraud is still carried, or one of its tasks has been rescheduled. -/
theorem verifySnapshot_sent (route : Route) (snap : ℕ → Word)
    {c c' : Config Role World Panic Query.Answer} (hc : (system route snap).Reachable c) {i : Role}
    (hstep : (system route snap).Step c (some i) c') {e : ℕ} {claim : Claim}
    (hq : (c'.thread i).query? = some (.send (.verifySnapshot e claim))) :
    Started c'.store e ∧ ∃ d, c'.store.claim? e = some d ∧ claim = d.toClaim ∧
      d.challenger = 0 ∧ (d.stateRoot = snap e ∨ partyOf d.honest ≠ .none ∨
        Carried c'.store e ∨ Rescheduled c'.store e) := by
  obtain ⟨hstarted, d, hd, hzero, hclaim⟩ :
      SentAsStored (.send (.verifySnapshot e claim)) c'.store :=
    (covers route snap).issues hc hstep hq
  have hinv := ((covers route snap).reachable (hc.step hstep)).inv
  refine ⟨hstarted, d, hd, hclaim, hzero, ?_⟩
  by_cases hroot : d.stateRoot = snap e
  · exact .inl hroot
  by_cases hparty : partyOf d.honest = .none
  · exact .inr (.inr (hinv.carried e ⟨d, hd, hroot, hzero, hparty⟩))
  · exact .inr (.inl hparty)

/-! ### Runs with a wrong claim -/

/-- The claim of epoch 5 is made with the root 2, and somebody starts its verification. -/
def sampleLogs : List (ScanTarget × Log) :=
  [(.outbox, Sample.claimed 5 2 3), (.outbox, Sample.verificationStarted 5 4)]

lemma genuine_sample : Genuine sampleLogs := by
  intro l hl e challenger hev
  have hall : ∀ l ∈ sampleLogs, l.2.event? = some (.claimed 5 9 2) ∨
      l.2.event? = some (.verificationStarted 5) := by decide
  rcases hall l hl with h | h
  · rw [h] at hev
    cases hev
  · rw [h] at hev
    cases hev

/-- The first log is handled. -/
def oneLog : List (Role × ((q : Query) → q.Answer)) := Sample.times 1 .indexer (Sample.node 100 0)

/-- Then a pass judges the claim, and the next one finds the wallet empty. -/
def noFunds : List (Role × ((q : Query) → q.Answer)) :=
  oneLog ++ Sample.times 9 .dispatcher (Sample.node 100 0)

/-- Both logs are handled, and a pass goes on until the verdict is due. -/
def untilVerdict : List (Role × ((q : Query) → q.Answer)) :=
  Sample.times 2 .indexer (Sample.node 100 0) ++ Sample.times 3 .dispatcher (Sample.node 100 0)

lemma reachable_oneLog :
    (system Sample.route fun _ => 1).Reachable ((Sample.start sampleLogs).play oneLog) :=
  Sample.reachable genuine_sample (fun _ => Sample.node_of_mem_times) (by decide +kernel)

lemma reachable_noFunds :
    (system Sample.route fun _ => 1).Reachable ((Sample.start sampleLogs).play noFunds) :=
  Sample.reachable genuine_sample (Sample.node_of_mem_append
    (fun _ => Sample.node_of_mem_times) fun _ => Sample.node_of_mem_times) (by decide +kernel)

lemma reachable_untilVerdict :
    (system Sample.route fun _ => 1).Reachable ((Sample.start sampleLogs).play untilVerdict) :=
  Sample.reachable genuine_sample (Sample.node_of_mem_append
    (fun _ => Sample.node_of_mem_times) fun _ => Sample.node_of_mem_times) (by decide +kernel)

lemma step_untilVerdict :
    (system Sample.route fun _ => 1).Step ((Sample.start sampleLogs).play untilVerdict)
      (some .dispatcher) (((Sample.start sampleLogs).play untilVerdict).play
        (Sample.times 1 .dispatcher (Sample.node 100 0))) :=
  .run (Config.alive_of_aliveOn Sample.mem_roles (by decide +kernel))
    (System.enabled_resume fun q _ => Sample.snapshotsAre_node 100 0 .dispatcher q _)

/-- The claim the sample run ends with. -/
def sampleClaim : ClaimData := ClaimData.startVerification 40 4 (ClaimData.fresh 5 2 9 30)

lemma not_rescheduled {w : World} {e : ℕ}
    (h : ∀ o ∈ w.log, (match o with | .rescheduling _ _ => false | _ => true) = true) :
    ¬Rescheduled w e := by
  rintro ⟨t, n, -, -, hm⟩
  exact Bool.false_ne_true (h _ hm)

/-- The obligation of a claim that has just been handled is carried. -/
theorem fraud_carried_sample : Carried ((Sample.start sampleLogs).play oneLog).store 5 :=
  fraud_carried Sample.route (fun _ => 1) reachable_oneLog (not_rescheduled (by decide +kernel))
    ⟨ClaimData.fresh 5 2 9 30, by decide +kernel, by decide, rfl, by decide⟩

/-- Without the funds for the deposit the fraud is forgotten. -/
theorem fraud_forgotten : ∃ c, (system Sample.route fun _ => 1).Reachable c ∧
    Obliged (fun _ => 1) c.store 5 ∧ ¬Carried c.store 5 :=
  ⟨_, reachable_noFunds, ⟨ClaimData.fresh 5 2 9 30, by decide +kernel, by decide, rfl, by decide⟩,
    by decide +kernel⟩

/-- The validator finishes the verification of a claim it has just found to be wrong. -/
theorem wrong_root_verified : ∃ c c' claim d, (system Sample.route fun _ => 1).Reachable c ∧
    (system Sample.route fun _ => 1).Step c (some .dispatcher) c' ∧
    (c'.thread .dispatcher).query? = some (.send (.verifySnapshot 5 claim)) ∧
    c'.store.claim? 5 = some d ∧ d.stateRoot ≠ 1 :=
  ⟨_, _, sampleClaim.toClaim, sampleClaim, reachable_untilVerdict, step_untilVerdict,
    by decide +kernel, by decide +kernel, by decide⟩

theorem verifySnapshot_sent_sample :
    Started (((Sample.start sampleLogs).play untilVerdict).play
      (Sample.times 1 .dispatcher (Sample.node 100 0))).store 5 :=
  (verifySnapshot_sent Sample.route (fun _ => 1) reachable_untilVerdict step_untilVerdict
    (by decide +kernel : _ = some (Query.send (.verifySnapshot 5 sampleClaim.toClaim)))).1

end Fraud

end VeaValidator
