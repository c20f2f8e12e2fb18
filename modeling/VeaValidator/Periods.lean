import VeaValidator.Invalidation
import VeaValidator.Coop.Clock
import VeaValidator.Writes

/-!
The waiting periods of the contracts.

A task is given its time when it is queued, from the times of the claim as they are then. The claim
may be updated afterwards, so a task and the claim it will read have to be kept in step: a second
`VerificationStarted` log changes the time of the verification and leaves the task of the first
one with its own.
-/

namespace VeaValidator

open Coop Invalidation

namespace Periods

/-- The first time at which a task of a kind may be executed, as far as the claim says. -/
def earliest (route : Route) (kind : TaskKind) (d : ClaimData) : ℕ :=
  match kind with
  | .validateClaim => d.timestampClaimed
  | .startVerification => d.timestampClaimed + route.settings.startVerificationDelay
  | .verifySnapshot =>
    if d.challenger = 0 then d.timestampVerification + route.settings.minChallengePeriod else 0
  | _ => 0

/-- The claim of a task has no objection to the time `n`. -/
def Due (route : Route) (w : World) (task : Task) (n : ℕ) : Prop :=
  ∀ d, w.claim? task.epoch = some d → earliest route task.kind d ≤ n

/-- The kinds that wait for a claim. -/
def Waiting (k : KindName) : Prop :=
  k = .validateClaim ∨ k = .startVerification ∨ k = .verifySnapshot

/-- The `Claimed` log of `e` has been handled. -/
def Claimed (w : World) (e : ℕ) : Prop :=
  ∃ log claimer root, log.event? = some (.claimed e claimer root) ∧ .handled .outbox log ∈ w.log

/-- The key of the `VerifySnapshot` tasks of an epoch. -/
abbrev verifying (e : ℕ) : ℕ × KindName := (e, .verifySnapshot)

/-- The times of the queue and of the claims, when the epochs in `C` have been claimed. -/
structure Held (route : Route) (C : ℕ → Prop) (w : World) : Prop where
  stored : ∀ e, w.claim? e ≠ none → C e
  queued : ∀ task ∈ w.schedule.tasks, Waiting task.kind.name → C task.epoch
  due : ∀ task ∈ w.schedule.tasks, Due route w task task.executeAfter
  single : ∀ e d, w.claim? e = some d → d.challenger = 0 →
    (w.schedule.tasks.map Task.key).count (verifying e) ≤ 1

/-- What holds whenever everybody waits. -/
def Inv (route : Route) (w : World) : Prop := Held route (Claimed w) w

variable {route : Route} {C C' : ℕ → Prop} {s t u : World} {e : ℕ}

lemma earliest_eq_zero {kind : TaskKind} {d : ClaimData} (h : ¬Waiting kind.name) :
    earliest route kind d = 0 := by
  unfold Waiting at h
  cases kind <;> simp_all [earliest, TaskKind.name]

/-- Only the times a kind waits for count, and a challenge ends the waiting. -/
lemma earliest_le {kind : TaskKind} {d d' : ClaimData} {n : ℕ}
    (hclaimed : d'.timestampClaimed = d.timestampClaimed)
    (hopen : kind = .verifySnapshot → d'.challenger = 0 →
      d.challenger = 0 ∧ d'.timestampVerification = d.timestampVerification)
    (h : earliest route kind d ≤ n) : earliest route kind d' ≤ n := by
  cases kind with
  | validateClaim =>
    simp only [earliest] at h ⊢
    omega
  | startVerification =>
    simp only [earliest] at h ⊢
    omega
  | verifySnapshot =>
    simp only [earliest] at h ⊢
    by_cases hzero : d'.challenger = 0
    · obtain ⟨hzero', hts⟩ := hopen rfl hzero
      simp only [hzero, hzero', if_true] at h ⊢
      omega
    · simp only [hzero, if_false]
      omega
  | saveSnapshot | claim | challenge | sendSnapshot | executeRelay | withdrawDeposit =>
    exact Nat.zero_le n

lemma due_of_not_waiting {task : Task} {n : ℕ} (h : ¬Waiting task.kind.name) :
    Due route s task n := by
  intro d _
  rw [earliest_eq_zero h]
  exact Nat.zero_le n

lemma Due.mono {task : Task} {n m : ℕ} (h : Due route s task n) (hle : n ≤ m) :
    Due route s task m := fun d hd => (h d hd).trans hle

lemma count_pos_iff : 0 < (s.schedule.tasks.map Task.key).count (verifying e) ↔
    s.Queued e .verifySnapshot := List.count_pos_iff

/-! ### The steps -/

lemma Held.imp (h : Held route C s) (hC : ∀ e, C e → C' e) : Held route C' s :=
  ⟨fun e hc => hC e (h.stored e hc), fun task ht hk => hC _ (h.queued task ht hk), h.due, h.single⟩

/-- What is neither in the queue nor in the claims does not matter. -/
lemma Held.congr (h : Held route C s) (htasks : t.schedule.tasks = s.schedule.tasks)
    (hclaims : t.claims = s.claims) : Held route C t := by
  have hclaim : ∀ e, t.claim? e = s.claim? e := fun e => by
    rw [World.claim?, World.claim?, hclaims]
  refine ⟨fun e hc => h.stored e (by rwa [hclaim] at hc), ?_, ?_, ?_⟩
  · rw [htasks]
    exact h.queued
  · rw [htasks]
    intro task ht d hd
    rw [hclaim] at hd
    exact h.due task ht d hd
  · rw [htasks]
    intro e d hd
    rw [hclaim] at hd
    exact h.single e d hd

/-- Tasks may go. -/
lemma Held.shrink (h : Held route C s) (htasks : t.schedule.tasks.Sublist s.schedule.tasks)
    (hclaim : ∀ e, t.claim? e = s.claim? e) : Held route C t := by
  refine ⟨fun e hc => h.stored e (by rwa [hclaim] at hc), fun task ht =>
    h.queued task (htasks.subset ht), fun task ht d hd => ?_, fun e d hd hzero => ?_⟩
  · rw [hclaim] at hd
    exact h.due task (htasks.subset ht) d hd
  · rw [hclaim] at hd
    exact ((htasks.map Task.key).count_le _).trans (h.single e d hd hzero)

lemma Held.removeClaim (h : Held route C s) : Held route C (s.removeClaim e) := by
  have hclaim : ∀ e' d, (s.removeClaim e).claim? e' = some d → s.claim? e' = some d := by
    intro e' d hd
    rw [World.claim?_removeClaim] at hd
    split at hd
    · cases hd
    · exact hd
  refine ⟨fun e' hc => ?_, h.queued, fun task ht d hd => h.due task ht d (hclaim _ d hd),
    fun e' d hd => h.single e' d (hclaim e' d hd)⟩
  obtain ⟨d, hd⟩ := Option.ne_none_iff_exists'.mp hc
  exact h.stored e' (by rw [hclaim e' d hd]; exact Option.some_ne_none d)

lemma Held.addTask {task : Task} (h : Held route C s) (hC : Waiting task.kind.name → C task.epoch)
    (hdue : Due route s task task.executeAfter)
    (hnew : task.kind.name = .verifySnapshot → ∀ d, s.claim? task.epoch = some d →
      d.challenger = 0 → ¬s.Queued task.epoch .verifySnapshot) : Held route C (s.addTask task) := by
  refine ⟨h.stored, fun task' ht hk => ?_, fun task' ht => ?_, fun e d hd hzero => ?_⟩
  · rcases List.mem_append.mp ht with ht | ht
    · exact h.queued task' ht hk
    · rw [List.mem_singleton.mp ht] at hk ⊢
      exact hC hk
  · rcases List.mem_append.mp ht with ht | ht
    · exact h.due task' ht
    · rw [List.mem_singleton.mp ht]
      exact hdue
  · rw [World.keys_addTask, List.count_append, List.count_singleton]
    have hone := h.single e d hd hzero
    by_cases hkey : task.key = verifying e
    · obtain ⟨rfl, hk⟩ := Prod.mk.inj hkey
      have hzero' : (s.schedule.tasks.map Task.key).count (verifying task.epoch) = 0 := by
        have hpos := (count_pos_iff (s := s) (e := task.epoch)).not.mpr (hnew hk d hd hzero)
        omega
      have hle : (if task.key == verifying task.epoch then 1 else 0) ≤ 1 := by split <;> omega
      omega
    · rw [if_neg (by simpa using hkey)]
      omega

/-- An update of a claim that asks for no more time of the queued tasks. -/
lemma Held.updateClaim {f : ClaimData → ClaimData} (h : Held route C s)
    (hf : ∀ c, (f c).epoch = c.epoch) (hzero : ∀ c, (f c).challenger = 0 → c.challenger = 0)
    (hle : ∀ d, s.claim? e = some d → ∀ task ∈ s.schedule.tasks, task.epoch = e →
      earliest route task.kind (f d) ≤ earliest route task.kind d) :
    Held route C (s.updateClaim e f) := by
  have hclaim : ∀ e' d', (s.updateClaim e f).claim? e' = some d' →
      s.claim? e' = some d' ∨ e' = e ∧ ∃ d, s.claim? e = some d ∧ d' = f d := by
    intro e' d' hd
    rw [World.claim?_updateClaim _ _ _ _ hf] at hd
    split at hd
    · next he =>
      subst he
      obtain ⟨d, hsome, rfl⟩ := Option.map_eq_some_iff.mp hd
      exact .inr ⟨rfl, d, hsome, rfl⟩
    · exact .inl hd
  refine ⟨fun e' hc => ?_, h.queued, fun task ht d' hd' => ?_, fun e' d' hd' hzero' => ?_⟩
  · exact h.stored e' ((World.stored_updateClaim _ _ _ _ hf).mp hc)
  · rcases hclaim _ d' hd' with hd | ⟨he, d, hd, rfl⟩
    · exact h.due task ht d' hd
    · calc earliest route task.kind (f d) ≤ earliest route task.kind d := hle d hd task ht he
        _ ≤ task.executeAfter := h.due task ht d (by rw [he]; exact hd)
  · rcases hclaim e' d' hd' with hd | ⟨rfl, d, hd, rfl⟩
    · exact h.single e' d' hd hzero'
    · exact h.single e' d hd (hzero d hzero')

/-- A claim is stored for an epoch without tasks. -/
lemma Held.storeClaim {c : ClaimData} (h : Held route C s) (hC : C c.epoch)
    (hfree : ∀ task ∈ s.schedule.tasks, task.epoch ≠ c.epoch) :
    Held route C (s.storeClaim c) := by
  have hclaim : ∀ e d, (s.storeClaim c).claim? e = some d → e ≠ c.epoch → s.claim? e = some d := by
    intro e d hd hne
    rwa [World.claim?_storeClaim, if_neg hne.symm, Option.or_none] at hd
  refine ⟨fun e hc => ?_, h.queued, fun task ht d hd => ?_, fun e d hd hzero => ?_⟩
  · by_cases he : e = c.epoch
    · rw [he]
      exact hC
    · rw [World.claim?_storeClaim, if_neg (Ne.symm he), Option.or_none] at hc
      exact h.stored e hc
  · exact h.due task ht d (hclaim _ d hd (hfree task ht))
  · by_cases he : e = c.epoch
    · have hcount : (s.schedule.tasks.map Task.key).count (verifying e) = 0 := by
        rw [List.count_eq_zero]
        intro hm
        obtain ⟨task, ht, hkey⟩ := List.mem_map.mp hm
        exact hfree task ht ((congrArg Prod.fst hkey).trans he)
      show (s.schedule.tasks.map Task.key).count (verifying e) ≤ 1
      omega
    · exact h.single e d (hclaim e d hd he) hzero

/-! ### The protocol -/

/-- The end of the epoch has been handled. -/
def Settled (d : ClaimData) : Prop := partyOf d.honest ≠ .none

/-- The verification time of the claim stays: its task is queued, or all is over. -/
def Guarded (w : World) (e : ℕ) (d : ClaimData) : Prop := w.Queued e .verifySnapshot ∨ Settled d

/-- An epoch is claimed once, its verification does not start again while the claim is open and the
task of the last start is queued, and a challenger has an address. The blocks are of this
century. -/
def Careful : Role → (q : Query) → q.Answer → World → Prop
  | .indexer, .logs .outbox _, .ok (log :: _), w =>
      (∀ e claimer root, log.event? = some (.claimed e claimer root) → ¬Claimed w e) ∧
      (∀ e, log.event? = some (.verificationStarted e) → ∀ d, w.claim? e = some d →
        d.challenger = 0 → ¬Guarded w e d) ∧
      ∀ e challenger, log.event? = some (.challenged e challenger) → challenger ≠ 0
  | .dispatcher, .blockByNumber .outbox .latest, .ok (some b), _ => b.timestamp < 2 ^ 32
  | _, _, _, _ => True

/-- The clock of a pass. -/
def passClock : Role → (q : Query) → q.Answer → Option ℕ
  | .dispatcher, .blockByNumber .outbox .latest, .ok (some b) => some b.timestamp
  | _, _, _ => none

/-- What the indexer leaves of a claim that may be in a pass. -/
structure Moves (s t : World) : Prop where
  claimed : ∀ e, Claimed s e → Claimed t e
  claims : ∀ e, Claimed s e → ∀ d', t.claim? e = some d' → ∃ d, s.claim? e = some d ∧
    d'.timestampClaimed = d.timestampClaimed ∧ (d'.challenger = 0 → d.challenger = 0 ∧
      (Guarded s e d → d'.timestampVerification = d.timestampVerification ∧ Guarded t e d'))

/-- The dispatcher queues no `VerifySnapshot` task and changes no claim, but it may remove one. -/
structure Serves (s t : World) : Prop where
  handled : SameHandled s t
  queued : ∀ e, t.Queued e .verifySnapshot → s.Queued e .verifySnapshot
  claims : ∀ e d, t.claim? e = some d → s.claim? e = some d

lemma claimed_of_subset (h : s.log ⊆ t.log) (hc : Claimed s e) : Claimed t e := by
  obtain ⟨log, claimer, root, hev, hm⟩ := hc
  exact ⟨log, claimer, root, hev, h hm⟩

lemma claimed_congr (h : SameHandled s t) : Claimed t e ↔ Claimed s e := by
  unfold Claimed
  simp only [h _]

lemma Moves.refl (s : World) : Moves s s :=
  ⟨fun _ h => h, fun _ _ d hd => ⟨d, hd, rfl, fun hzero => ⟨hzero, fun hg => ⟨rfl, hg⟩⟩⟩⟩

lemma Moves.trans (h : Moves s t) (h' : Moves t u) : Moves s u := by
  refine ⟨fun e hc => h'.claimed e (h.claimed e hc), fun e hc d'' hd'' => ?_⟩
  obtain ⟨d', hd', hts', hopen'⟩ := h'.claims e (h.claimed e hc) d'' hd''
  obtain ⟨d, hd, hts, hopen⟩ := h.claims e hc d' hd'
  refine ⟨d, hd, hts'.trans hts, fun hzero => ?_⟩
  obtain ⟨hzero', hkeep'⟩ := hopen' hzero
  obtain ⟨hzero'', hkeep⟩ := hopen hzero'
  refine ⟨hzero'', fun hg => ?_⟩
  obtain ⟨htv, hg'⟩ := hkeep hg
  obtain ⟨htv', hg''⟩ := hkeep' hg'
  exact ⟨htv'.trans htv, hg''⟩

lemma Serves.refl (s : World) : Serves s s := ⟨.refl s, fun _ h => h, fun _ _ h => h⟩

lemma Serves.trans (h : Serves s t) (h' : Serves t u) : Serves s u :=
  ⟨h.handled.trans h'.handled, fun e hq => h.queued e (h'.queued e hq),
    fun e d hd => h.claims e d (h'.claims e d hd)⟩

/-- The tasks a pass at `now` still has to execute. -/
structure Pass (route : Route) (N now : ℕ) (l : List Task) (w : World) : Prop where
  bound : now ≤ N
  small : now < 2 ^ 32
  due : ∀ task ∈ l, Due route w task now
  claimed : ∀ task ∈ l, Waiting task.kind.name → Claimed w task.epoch
  guarded : ∀ task ∈ l, task.kind.name = .verifySnapshot → ∀ d, w.claim? task.epoch = some d →
    d.challenger = 0 →
      Guarded w task.epoch d ∧ (l.map Task.key).count (verifying task.epoch) ≤ 1

/-- The indexer does not disturb a pass. -/
lemma Pass.moves {N now : ℕ} {l : List Task} (h : Pass route N now l s) (hm : Moves s t) :
    Pass route N now l t := by
  refine ⟨h.bound, h.small, fun task ht d' hd' => ?_,
    fun task ht hk => hm.claimed _ (h.claimed task ht hk), fun task ht hk d' hd' hzero => ?_⟩
  · by_cases hk : Waiting task.kind.name
    · obtain ⟨d, hd, hts, hopen⟩ := hm.claims _ (h.claimed task ht hk) d' hd'
      refine earliest_le hts (fun hkind hzero => ?_) (h.due task ht d hd)
      obtain ⟨hzero', hkeep⟩ := hopen hzero
      have hname : task.kind.name = .verifySnapshot := by rw [hkind]; rfl
      exact ⟨hzero', (hkeep (h.guarded task ht hname d hd hzero').1).1⟩
    · exact due_of_not_waiting hk d' hd'
  · obtain ⟨d, hd, -, hopen⟩ := hm.claims _ (h.claimed task ht (.inr (.inr hk))) d' hd'
    obtain ⟨hzero', hkeep⟩ := hopen hzero
    obtain ⟨hg, hcount⟩ := h.guarded task ht hk d hd hzero'
    exact ⟨(hkeep hg).2, hcount⟩

/-- What is sent at `N` respects the waiting period of its claim. -/
def Respects (route : Route) (N : ℕ) : Tx → World → Prop
  | .startVerification e claim, w => ∃ d, w.claim? e = some d ∧ claim = d.toClaim ∧
      d.timestampClaimed + route.settings.startVerificationDelay ≤ N
  | .verifySnapshot e claim, w => ∃ d, w.claim? e = some d ∧ claim = d.toClaim ∧
      d.timestampVerification + route.settings.minChallengePeriod ≤ N
  | _, _ => True

/-- Passes whose clocks go up to `N`. -/
@[simps]
def protocol (route : Route) (N : ℕ) : Protocol Role World Panic Query.Answer where
  inv := Inv route
  durable _ := True
  rely
    | .indexer, s, t => Serves s t
    | .dispatcher, s, t => Moves s t
  guar
    | .indexer, s, t => Moves s t
    | .dispatcher, s, t => Serves s t
  answer i q a w := Careful i q a w ∧ System.Until passClock N i q a w
  issue
    | .dispatcher, .send tx, w => Respects route N tx w
    | _, _, _ => True
  fault _ _ _ := True

/-! ### What the indexer does -/

lemma moves_of_claim? (hclaim : ∀ e, t.claim? e = s.claim? e)
    (hqueued : ∀ e, s.Queued e .verifySnapshot → t.Queued e .verifySnapshot)
    (hlog : s.log ⊆ t.log) : Moves s t := by
  refine ⟨fun e => claimed_of_subset hlog, fun e _ d hd => ?_⟩
  rw [hclaim] at hd
  exact ⟨d, hd, rfl, fun hzero => ⟨hzero, fun hg => ⟨rfl, hg.imp_left (hqueued e)⟩⟩⟩

lemma moves_note {o : Obs} : Moves s (s.note o) :=
  moves_of_claim? (fun _ => rfl) (fun _ h => h) (List.subset_cons_self _ _)

lemma moves_addTask {task : Task} : Moves s (s.addTask task) :=
  moves_of_claim? (fun _ => rfl) (fun _ h => (World.queued_addTask _ _ _ _).mpr (.inl h))
    (List.subset_cons_self _ _)

lemma moves_invalidateTasks {ks : List KindName} (h : KindName.verifySnapshot ∈ ks →
    ∀ d, s.claim? e = some d → d.challenger = 0 → Settled d) : Moves s (s.invalidateTasks e ks) := by
  refine ⟨fun e' => claimed_of_subset (s.log_subset_invalidateTasks e ks), fun e' _ d hd => ?_⟩
  refine ⟨d, hd, rfl, fun hzero => ⟨hzero, fun hg => ⟨rfl, ?_⟩⟩⟩
  rcases hg with hq | hsettled
  · by_cases hgone : e' = e ∧ KindName.verifySnapshot ∈ ks
    · obtain ⟨rfl, hk⟩ := hgone
      exact .inr (h hk d hd hzero)
    · exact .inl ((World.queued_invalidateTasks _ _ _ _ _).mpr ⟨hq, hgone⟩)
  · exact .inr hsettled

lemma moves_updateClaim {f : ClaimData → ClaimData} (hf : ∀ c, (f c).epoch = c.epoch)
    (hclaimed : ∀ c, (f c).timestampClaimed = c.timestampClaimed)
    (hopen : ∀ d, s.claim? e = some d → (f d).challenger = 0 → d.challenger = 0 ∧ (Guarded s e d →
      (f d).timestampVerification = d.timestampVerification ∧ (Settled d → Settled (f d)))) :
    Moves s (s.updateClaim e f) := by
  refine ⟨fun _ h => h, fun e' _ d' hd' => ?_⟩
  rw [World.claim?_updateClaim _ _ _ _ hf] at hd'
  by_cases he : e' = e
  · subst he
    rw [if_pos rfl] at hd'
    obtain ⟨d, hd, rfl⟩ := Option.map_eq_some_iff.mp hd'
    refine ⟨d, hd, hclaimed d, fun hzero => ⟨(hopen d hd hzero).1, fun hg => ?_⟩⟩
    obtain ⟨htv, hsettled⟩ := (hopen d hd hzero).2 hg
    exact ⟨htv, hg.imp_right hsettled⟩
  · rw [if_neg he] at hd'
    exact ⟨d', hd', rfl, fun hzero => ⟨hzero, fun hg => ⟨rfl, hg⟩⟩⟩

lemma moves_storeClaim {c : ClaimData} (h : ¬Claimed s c.epoch) : Moves s (s.storeClaim c) := by
  refine ⟨fun _ h => h, fun e hc d hd => ?_⟩
  have hne : c.epoch ≠ e := by
    rintro rfl
    exact h hc
  rw [World.claim?_storeClaim, if_neg hne, Option.or_none] at hd
  exact ⟨d, hd, rfl, fun hzero => ⟨hzero, fun hg => ⟨rfl, hg⟩⟩⟩

lemma patient_indexer {N : ℕ} {J : World → Prop} (h : ∀ s t, J s → Serves s t → J t) :
    Patient (protocol route N) .indexer J where
  rely s t hJ ht _ := h s t hJ ht
  issue _ _ _ _ _ := trivial
  fault _ _ _ _ _ := trivial

/-- A log is handled, or none that makes a claim. -/
lemma Inv.note (h : Inv route s) (o : Obs) : Inv route (s.note o) :=
  Held.congr (Held.imp h fun _ => claimed_of_subset (List.subset_cons_self _ _)) rfl rfl

lemma Inv.invalidateTasks {ks : List KindName} (h : Inv route s) :
    Inv route (s.invalidateTasks e ks) :=
  Held.imp (Held.shrink h List.filter_sublist fun _ => rfl) fun _ =>
    claimed_of_subset (s.log_subset_invalidateTasks e ks)

lemma Inv.addTask {task : Task} (h : Inv route s)
    (hclaimed : Waiting task.kind.name → Claimed s task.epoch)
    (hdue : Due route s task task.executeAfter)
    (hnew : task.kind.name = .verifySnapshot → ∀ d, s.claim? task.epoch = some d →
      d.challenger = 0 → ¬s.Queued task.epoch .verifySnapshot) : Inv route (s.addTask task) :=
  Held.imp (Held.addTask h hclaimed hdue hnew) fun _ =>
    claimed_of_subset (List.subset_cons_self _ _)

lemma claim?_updateClaim_self {f : ClaimData → ClaimData} {d : ClaimData}
    (hf : ∀ c, (f c).epoch = c.epoch) (hd : s.claim? e = some d) :
    (s.updateClaim e f).claim? e = some (f d) := by
  rw [World.claim?_updateClaim _ _ _ _ hf, if_pos rfl, hd, Option.map_some]

section
variable {N : ℕ} {log : Log} {event : Event}

/-- What a handler leaves behind, before it says that it has handled its log. -/
def Handled (route : Route) (log : Log) (t : World) : Prop :=
  Inv route (t.note (.handled .outbox log))

lemma wp_missingClaim {ts : ℕ} (h : Inv route t) :
    (Indexer.missingClaim route e ts).wp (protocol route N) .indexer
      (fun _ => Handled route log) t :=
  Indexer.wp_missingClaim (fun _ => h.note _) fun _ => ⟨h, trivial⟩

/-- The last write of a handler. -/
lemma wp_queue {task : Task} (h : Inv route t) (hclaimed : Waiting task.kind.name → Claimed t task.epoch)
    (hdue : Due route t task task.executeAfter)
    (hnew : task.kind.name = .verifySnapshot → ∀ d, t.claim? task.epoch = some d →
      d.challenger = 0 → ¬t.Queued task.epoch .verifySnapshot) :
    (TaskStore.addTask task).wp (protocol route N) .indexer (fun _ => Handled route log) t :=
  ⟨moves_addTask, trivial, (h.addTask hclaimed hdue hnew).note _⟩

lemma wp_claimed {claimer : Address} {root : Word} (hI : Inv route s) (hfirst : ¬Claimed s e)
    (hev : log.event? = some (.claimed e claimer root)) :
    (Indexer.claimed log e claimer root).wp (protocol route N) .indexer
      (fun _ => Handled route log) s := by
  have hp : Patient (protocol route N) .indexer fun t => ¬Claimed t e :=
    patient_indexer fun t u h hu => fun hc => h ((claimed_congr hu.handled).mp hc)
  refine Indexer.wp_claimed hp hI hfirst (fun t hIt _ _ => Inv.note hIt _)
    fun ts t _ hIt hfirst hfree => ?_
  rw [Prog.wp_bind, wp_store]
  refine ⟨fun _ => ⟨hIt, trivial⟩, fun hnone => ⟨moves_storeClaim hfirst, trivial, ?_⟩⟩
  -- the epoch counts as claimed once the handler has returned
  have hstored : Held route (fun e' => Claimed t e' ∨ e' = e)
      (t.storeClaim (ClaimData.fresh e root claimer (u32 ts))) :=
    Held.storeClaim (Held.imp hIt fun _ => .inl) (.inr rfl) hfree
  have hdue : ∀ d, (t.storeClaim (ClaimData.fresh e root claimer (u32 ts))).claim? e = some d →
      earliest route .validateClaim d ≤ ts := by
    intro d hd
    have hnone' : t.claim? e = none := hnone
    rw [World.claim?_storeClaim, hnone', Option.none_or, ClaimData.fresh, if_pos rfl] at hd
    obtain rfl := Option.some.inj hd
    show u32 ts ≤ ts
    exact Nat.mod_le ts _
  have hadded : Held route (fun e' => Claimed t e' ∨ e' = e)
      ((t.storeClaim (ClaimData.fresh e root claimer (u32 ts))).addTask ⟨e, ts, .validateClaim⟩) :=
    Held.addTask hstored (fun _ => .inr rfl) hdue (fun hk => by cases hk)
  have hclaimed : ∀ e', (Claimed t e' ∨ e' = e) →
      Claimed (((t.storeClaim (ClaimData.fresh e root claimer (u32 ts))).addTask
        ⟨e, ts, .validateClaim⟩).note (.handled .outbox log)) e' := by
    rintro e' (hc | rfl)
    · refine claimed_of_subset (fun o ho => ?_) hc
      exact List.mem_cons_of_mem _ (List.mem_cons_of_mem _ ho)
    · exact ⟨log, claimer, root, hev, List.mem_cons_self⟩
  exact ⟨moves_addTask, trivial, Held.congr (Held.imp hadded hclaimed) rfl rfl⟩

lemma wp_verificationStarted (hmc : route.settings.minChallengePeriod + 2 ^ 32 ≤ 2 ^ 64)
    (hI : Inv route s)
    (hfree : ∀ d, s.claim? e = some d → d.challenger = 0 → ¬Guarded s e d) :
    (Indexer.verificationStarted route log e).wp (protocol route N) .indexer
      (fun _ => Handled route log) s := by
  have hp : Patient (protocol route N) .indexer fun t =>
      ∀ d, t.claim? e = some d → d.challenger = 0 → ¬Guarded t e d :=
    patient_indexer fun t u h hu d hd hzero hg =>
      h d (hu.claims e d hd) hzero (hg.imp_left (hu.queued e))
  refine Indexer.wp_verificationStarted hp hI hfree (fun _ ts t _ hIt _ => wp_missingClaim hIt)
    fun _ ts n t _ _ hIt hfree => ?_
  rw [Prog.wp_bind, wp_update]
  refine ⟨fun _ => ⟨hIt, trivial⟩, fun d hd => ?_⟩
  have hupdated : Inv route (t.updateClaim e (ClaimData.startVerification (u32 ts) (u32 n))) := by
    refine Held.updateClaim hIt (fun _ => rfl) (fun _ h => h) fun d hd task ht he => ?_
    refine earliest_le (d := d) rfl (fun hkind hzero => ?_) le_rfl
    have hq := World.queued_of_mem ht
    rw [he, hkind] at hq
    exact absurd (.inl hq) (hfree d hd hzero)
  have hcleared : Inv route ((t.updateClaim e (ClaimData.startVerification (u32 ts)
      (u32 n))).invalidateTasks e [.startVerification]) := hupdated.invalidateTasks
  refine ⟨moves_updateClaim (fun _ => rfl) (fun _ => rfl) fun d hd hzero =>
    ⟨hzero, fun hg => absurd hg (hfree d hd hzero)⟩, trivial, ?_⟩
  rw [Prog.wp_bind, wp_invalidateTasks]
  refine ⟨moves_invalidateTasks fun hk => by simp at hk, trivial, ?_⟩
  have hclaim : ((t.updateClaim e (ClaimData.startVerification (u32 ts)
      (u32 n))).invalidateTasks e [.startVerification]).claim? e =
      some (ClaimData.startVerification (u32 ts) (u32 n) d) :=
    claim?_updateClaim_self (fun _ => rfl) hd
  refine wp_queue hcleared (fun _ => hcleared.stored e (by rw [hclaim]; exact Option.some_ne_none _))
    (fun d' hd' => ?_) fun _ d' hd' hzero hq => ?_
  · obtain rfl := Option.some.inj (hclaim.symm.trans hd')
    have hlt : u32 ts < 2 ^ 32 := Nat.mod_lt ts (by decide)
    have hsum : u64 (u32 ts + route.settings.minChallengePeriod) =
        u32 ts + route.settings.minChallengePeriod := Nat.mod_eq_of_lt (by omega)
    show (if _ then u32 ts + route.settings.minChallengePeriod else 0) ≤
      u64 (u32 ts + route.settings.minChallengePeriod)
    rw [hsum]
    split
    · exact le_rfl
    · exact Nat.zero_le _
  · obtain rfl := Option.some.inj (hclaim.symm.trans hd')
    rw [World.queued_invalidateTasks, World.queued_updateClaim] at hq
    exact hfree d hd hzero (.inl hq.1)

lemma wp_challenged {challenger : Address} (hI : Inv route s) (hne : challenger ≠ 0) :
    (Indexer.challenged route log e challenger).wp (protocol route N) .indexer
      (fun _ => Handled route log) s := by
  have hp : Patient (protocol route N) .indexer fun _ => True := patient_indexer fun _ _ _ _ => trivial
  refine Indexer.wp_challenged hp hp hI trivial (fun _ ts t _ hIt _ => wp_missingClaim hIt)
    fun _ => ?_
  rw [Prog.wp_bind, wp_update]
  refine ⟨fun _ => ⟨hI, trivial⟩, fun d hd => ?_⟩
  have hupdated : Inv route (s.updateClaim e (ClaimData.challengeBy challenger)) :=
    Held.updateClaim hI (fun _ => rfl) (fun _ h => absurd h hne) fun d _ task _ _ =>
      earliest_le (d := d) rfl (fun _ h => absurd h hne) le_rfl
  have hclaim : (s.updateClaim e (ClaimData.challengeBy challenger)).claim? e =
      some (ClaimData.challengeBy challenger d) := claim?_updateClaim_self (fun _ => rfl) hd
  have hcleared : Inv route ((s.updateClaim e (ClaimData.challengeBy challenger)).invalidateTasks e
      [.validateClaim, .challenge, .startVerification, .verifySnapshot]) :=
    hupdated.invalidateTasks
  refine ⟨moves_updateClaim (fun _ => rfl) (fun _ => rfl) fun _ _ h => absurd h hne, trivial, ?_⟩
  refine ⟨moves_invalidateTasks fun _ d' hd' hzero => ?_, trivial, hcleared, trivial,
    fun ts u _ hIu _ => ?_⟩
  · obtain rfl := Option.some.inj (hclaim.symm.trans hd')
    exact absurd hzero hne
  · have hwait : ¬Waiting (TaskKind.sendSnapshot).name := by
      rintro (h | h | h) <;> cases h
    exact wp_queue hIu (fun h => absurd h hwait) (due_of_not_waiting hwait) (fun h => by cases h)

lemma wp_verified (hI : Inv route s) :
    (Indexer.verified route log e).wp (protocol route N) .indexer
      (fun _ => Handled route log) s := by
  have hp : Patient (protocol route N) .indexer fun _ => True := patient_indexer fun _ _ _ _ => trivial
  refine Indexer.wp_verified (D := fun _ _ => True) hp hI trivial (fun _ _ _ => trivial)
    (fun _ _ _ _ _ => trivial) (fun _ _ _ _ _ _ _ => trivial)
    (fun ts t _ hIt _ _ => wp_missingClaim hIt) fun ts d root t _ _ hIt _ _ => ?_
  rw [Prog.wp_bind, wp_update]
  generalize hhonest : (if d.stateRoot = root then "Claimer" else "Challenger") = honest
  have hparty : partyOf honest ≠ .none := by
    rw [← hhonest]
    split <;> decide
  refine ⟨fun _ => ⟨hIt, trivial⟩, fun d hd => ?_⟩
  have hupdated : Inv route (t.updateClaim e (ClaimData.settle honest)) :=
    Held.updateClaim hIt (fun _ => rfl) (fun _ h => h) fun d _ task _ _ =>
      earliest_le (d := d) rfl (fun _ h => ⟨h, rfl⟩) le_rfl
  have hclaim : (t.updateClaim e (ClaimData.settle honest)).claim? e =
      some (ClaimData.settle honest d) := claim?_updateClaim_self (fun _ => rfl) hd
  have hcleared : Inv route ((t.updateClaim e (ClaimData.settle honest)).invalidateTasks e
      [.validateClaim, .challenge, .startVerification, .verifySnapshot, .executeRelay]) :=
    hupdated.invalidateTasks
  refine ⟨moves_updateClaim (fun _ => rfl) (fun _ => rfl) fun _ _ h =>
    ⟨h, fun _ => ⟨rfl, fun _ => hparty⟩⟩, trivial, ?_⟩
  rw [Prog.wp_bind, wp_invalidateTasks]
  refine ⟨moves_invalidateTasks fun _ d' hd' _ => ?_, trivial, ?_⟩
  · obtain rfl := Option.some.inj (hclaim.symm.trans hd')
    exact hparty
  · have hwait : ¬Waiting (TaskKind.withdrawDeposit).name := by
      rintro (h | h | h) <;> cases h
    exact wp_queue hcleared (fun h => absurd h hwait) (due_of_not_waiting hwait)
      (fun h => by cases h)

lemma wp_act (hmc : route.settings.minChallengePeriod + 2 ^ 32 ≤ 2 ^ 64) (hI : Inv route s)
    (hev : log.event? = some event) {f : Filter} {logs : List Log}
    (hc : Careful .indexer (.logs .outbox f) (.ok (log :: logs)) s) :
    (Indexer.act route log event).wp (protocol route N) .indexer (fun _ => Handled route log) s := by
  obtain ⟨hfirst, hfree, haddress⟩ := hc
  cases event with
  | claimed e claimer root => exact wp_claimed hI (hfirst e claimer root hev) hev
  | verificationStarted e => exact wp_verificationStarted hmc hI (hfree e hev)
  | challenged e challenger => exact wp_challenged hI (haddress e challenger hev)
  | verified e => exact wp_verified hI

end

section
variable {N : ℕ} {log : Log}

lemma wp_handle (hmc : route.settings.minChallengePeriod + 2 ^ 32 ≤ 2 ^ 64) {target : ScanTarget}
    {f : Filter} {logs : List Log} (hI : Inv route s)
    (hc : Careful .indexer (.logs (Indexer.provider target) f) (.ok (log :: logs)) s) :
    (Indexer.handle route target log).wp (protocol route N) .indexer (fun _ => Inv route) s := by
  have hp : Patient (protocol route N) .indexer fun _ => True := patient_indexer fun _ _ _ _ => trivial
  cases target with
  | outbox =>
    refine Indexer.wp_handle (D := Handled route log) ?_ fun t ht => ⟨moves_note, trivial, ht⟩
    exact Indexer.wp_dispatchOutboxEvent hp hI trivial (fun _ => hI.note _)
      fun event hev => wp_act hmc hI hev hc
  | inbox =>
    have hdispatch : Prog.Keeps (protocol route N) .indexer (fun _ => True)
        (Indexer.dispatch route .inbox log) := by
      refine (confined_dispatch .inbox log).keeps hp (fun t u hIt _ hw => ?_) fun _ _ _ _ _ => trivial
      cases hw with
      | relay task hsig hepoch hkind =>
        have hwait : ¬Waiting task.kind.name := by
          rw [hkind]
          rintro (h | h | h) <;> cases h
        exact ⟨moves_addTask, trivial, Inv.addTask hIt (fun h => absurd h hwait)
          (due_of_not_waiting hwait) fun h => absurd (.inr (.inr h)) hwait, trivial⟩
      | save n =>
        exact ⟨moves_of_claim? (fun _ => rfl) (fun _ h => h) (List.Subset.refl _), trivial,
          Held.congr hIt rfl rfl, trivial⟩
    exact Indexer.wp_handle (hdispatch s hI trivial)
      fun t ht => ⟨moves_note, trivial, ht.1.note _⟩

/-! ### What the dispatcher does -/

lemma serves_of_claim? (hlog : SameHandled s t) (hclaim : ∀ e, t.claim? e = s.claim? e)
    (hqueued : ∀ e, t.Queued e .verifySnapshot → s.Queued e .verifySnapshot) : Serves s t :=
  ⟨hlog, hqueued, fun e d hd => by rwa [hclaim] at hd⟩

lemma clerk : Dispatcher.Clerk (protocol route N) .dispatcher where
  note o s ho _ := by
    refine ⟨serves_of_claim? (sameHandled_note fun log h => ?_) (fun _ => rfl) (fun _ h => h), trivial⟩
    rw [h] at ho
    exact ho
  reschedule task n s _ := ⟨serves_of_claim? sameHandled_rescheduleTask (fun _ => rfl)
    (fun _ h => (World.queued_rescheduleTask _ _ _ _ _).mp h), trivial⟩
  remove task s _ := ⟨serves_of_claim? (.refl s) (fun _ => rfl)
    (fun _ h => ((World.queued_removeTask _ _ _ _).mp h).1), trivial⟩

lemma patient_dispatcher {J : World → Prop} (h : ∀ s t, J s → Moves s t → J t) :
    Patient (protocol route N) .dispatcher J where
  rely s t hJ ht _ := h s t hJ ht
  issue q _ hq _ _ := by
    cases q with
    | send tx => exact hq.elim
    | _ => trivial
  fault _ _ _ _ _ := trivial

variable {now : ℕ} {task : Task} {l : List Task}

/-- What is sent in a pass has waited for its claim. -/
lemma respects_of_sentBy {C : Claim → Prop} {tx : Tx} (h : Pass route N now (task :: l) s)
    (hsent : Dispatcher.SentBy task C s tx) : Respects route N tx s := by
  have hdue := h.due task List.mem_cons_self
  cases tx with
  | startVerification e c =>
    obtain ⟨rfl, hkind, d, hd, -, rfl⟩ := hsent
    have hle := hdue d hd
    rw [hkind] at hle
    exact ⟨d, hd, rfl, hle.trans h.bound⟩
  | verifySnapshot e c =>
    obtain ⟨rfl, hkind, d, hd, hzero, rfl⟩ := hsent
    have hle := hdue d hd
    rw [hkind, earliest, if_pos hzero] at hle
    exact ⟨d, hd, rfl, hle.trans h.bound⟩
  | _ => trivial

lemma executor : Dispatcher.Executor (protocol route N) .dispatcher (Pass route N now (task :: l))
    route task (fun _ => True) fun _ _ => True :=
  { patient_dispatcher fun _ _ => Pass.moves with
    reads := fun _ => { patient_dispatcher fun _ _ => Pass.moves with
      none := fun _ _ _ _ => trivial
      many := fun _ _ _ => trivial }
    unknownRoute := fun _ _ _ => trivial
    undetermined := fun _ _ _ _ _ _ _ => trivial
    claim := fun _ _ _ _ _ => trivial
    root := fun _ _ _ _ _ => trivial
    rootStays := fun _ _ _ _ _ _ _ => trivial
    send := fun _ _ hsent _ hJ => respects_of_sentBy hJ hsent
    withdraw := fun _ _ _ _ => ⟨trivial, trivial⟩ }

lemma inv_finish {result : Except String Unit} (h : Inv route t) :
    Inv route (Dispatcher.finish now task result t) := by
  have htasks : (Dispatcher.finish now task result t).schedule.tasks.Sublist t.schedule.tasks := by
    rw [Dispatcher.tasks_finish]
    split
    · exact List.filter_sublist
    · exact List.Sublist.refl _
  exact Held.imp (Held.shrink h htasks fun e => Dispatcher.claim?_finish _ _ _ _ e) fun _ =>
    (claimed_congr sameHandled_finish).mpr

/-- The rest of a pass does not need the task that has been executed. -/
lemma pass_finish {result : Except String Unit} (h : Pass route N now (task :: l) t) :
    Pass route N now l (Dispatcher.finish now task result t) := by
  refine ⟨h.bound, h.small, fun task' ht d hd => ?_, fun task' ht hk => ?_,
    fun task' ht hk d hd hzero => ?_⟩
  · rw [Dispatcher.claim?_finish] at hd
    exact h.due task' (List.mem_cons_of_mem _ ht) d hd
  · exact (claimed_congr sameHandled_finish).mpr (h.claimed task' (List.mem_cons_of_mem _ ht) hk)
  · rw [Dispatcher.claim?_finish] at hd
    obtain ⟨hg, hcount⟩ := h.guarded task' (List.mem_cons_of_mem _ ht) hk d hd hzero
    have hkey : verifying task'.epoch = task'.key := by rw [Task.key, hk]
    have hpos : 0 < (l.map Task.key).count (verifying task'.epoch) := by
      rw [hkey]
      exact List.count_pos_iff.mpr (List.mem_map_of_mem ht)
    rw [List.map_cons, List.count_cons] at hcount
    by_cases hsame : task.key = verifying task'.epoch
    · rw [if_pos (by simpa using hsame)] at hcount
      omega
    · refine ⟨hg.imp_left fun hq => ?_, by omega⟩
      rw [Dispatcher.queued_finish]
      refine ⟨hq, fun hc => hsame ?_⟩
      rw [Task.key, ← hc.2.1, ← hc.2.2]

/-- The task of a verdict is set to a time at which it is due. -/
lemma due_verdict (hsd : route.settings.startVerificationDelay + 2 ^ 32 ≤ 2 ^ 64)
    (h : Pass route N now (task :: l) t) (hkind : task.kind = .validateClaim) (claimed root : Word) :
    Due route t ⟨task.epoch, Dispatcher.verdictTime route now claimed root,
      Dispatcher.verdict claimed root⟩ (Dispatcher.verdictTime route now claimed root) := by
  intro d hd
  have hdue := h.due task List.mem_cons_self d hd
  have hsmall := h.small
  rw [hkind, earliest] at hdue
  unfold Dispatcher.verdict Dispatcher.verdictTime
  by_cases hroot : claimed = root
  · simp only [hroot, if_true]
    have hsum : u64 (now + route.settings.startVerificationDelay) =
        now + route.settings.startVerificationDelay := Nat.mod_eq_of_lt (by omega)
    rw [hsum]
    exact Nat.add_le_add_right hdue _
  · simp only [hroot, if_false]
    exact Nat.zero_le now

lemma wp_processTask (hsd : route.settings.startVerificationDelay + 2 ^ 32 ≤ 2 ^ 64)
    (hI : Inv route s) (hL : Pass route N now (task :: l) s) :
    (Dispatcher.processTask route now task).wp (protocol route N) .dispatcher
      (fun _ t => Inv route t ∧ Pass route N now l t) s := by
  refine Dispatcher.wp_processTask clerk trivial (Dispatcher.wp_body_at executor (hI.note _)
    (hL.moves moves_note) (fun result t hIt hJ _ => ⟨trivial, inv_finish hIt, pass_finish hJ⟩)
    (fun hkind claimed root t hIt hJ _ _ => ?_) fun _ t hIt hJ => ?_)
  · have hverdict : (Dispatcher.verdict claimed root).name ≠ .verifySnapshot := by
      rcases Dispatcher.verdict_eq claimed root with h | h
      · rw [h]
        decide
      · rw [h]
        decide
    have hclaimed : Claimed t task.epoch :=
      hJ.claimed task List.mem_cons_self (.inl (by rw [hkind]; rfl))
    have hadded : Inv route (t.addTask ⟨task.epoch, Dispatcher.verdictTime route now claimed root,
        Dispatcher.verdict claimed root⟩) :=
      Inv.addTask hIt (fun _ => hclaimed) (due_verdict hsd hJ hkind claimed root)
        fun h => absurd h hverdict
    refine ⟨serves_of_claim? sameHandled_addTask (fun _ => rfl) (fun e hq => ?_), trivial, trivial,
      inv_finish hadded, pass_finish (hJ.moves moves_addTask)⟩
    rcases (World.queued_addTask _ _ _ _).mp hq with hq | ⟨-, hk⟩
    · exact hq
    · exact absurd hk.symm hverdict
  · have hclaims : ∀ e d, (t.removeClaim task.epoch).claim? e = some d → t.claim? e = some d := by
      intro e d hd
      rw [World.claim?_removeClaim] at hd
      split at hd
      · cases hd
      · exact hd
    have hmoves : Moves t (t.removeClaim task.epoch) := ⟨fun _ h => h, fun e _ d hd =>
      ⟨d, hclaims e d hd, rfl, fun hzero => ⟨hzero, fun hg => ⟨rfl, hg⟩⟩⟩⟩
    exact ⟨⟨.refl t, fun _ h => h, hclaims⟩, trivial, trivial, inv_finish (Held.removeClaim hIt),
      pass_finish (hJ.moves hmoves)⟩

/-- A pass takes the tasks whose time has come. -/
lemma pass_of_ready (hI : Inv route s) (hbound : now ≤ N) (hsmall : now < 2 ^ 32) :
    Pass route N now (s.schedule.tasks.filter fun x => now ≥ x.executeAfter) s := by
  refine ⟨hbound, hsmall, fun task ht => ?_, fun task ht => ?_, fun task ht hk d hd hzero => ?_⟩
  · obtain ⟨hm, hready⟩ := List.mem_filter.mp ht
    exact (Held.due hI task hm).mono (of_decide_eq_true hready)
  · exact Held.queued hI task (List.mem_filter.mp ht).1
  · have hq := World.queued_of_mem (List.mem_filter.mp ht).1
    rw [hk] at hq
    refine ⟨.inl hq, ?_⟩
    calc _ ≤ (s.schedule.tasks.map Task.key).count (verifying task.epoch) :=
        (List.filter_sublist.map Task.key).count_le _
      _ ≤ 1 := Held.single hI _ d hd hzero

lemma wp_run (hsd : route.settings.startVerificationDelay + 2 ^ 32 ≤ 2 ^ 64) (n : ℕ)
    (hI : Inv route s) : (Dispatcher.run route n).wp (protocol route N) .dispatcher
      (fun _ => Inv route) s := by
  have hp : Patient (protocol route N) .dispatcher fun _ => True :=
    patient_dispatcher fun _ _ _ _ => trivial
  refine Dispatcher.wp_run_of_passes hp (fun s hIs => ?_) n hI
  refine Dispatcher.wp_processPending (L := Pass route N) hp (fun block t ht hIt ha => ?_)
    (fun now task l u hIu hu => wp_processTask hsd hIu hu) hIs
  obtain ⟨hsmall, huntil⟩ := ha
  exact (pass_of_ready hIs (huntil _ rfl) hsmall).moves ht

end

/-! ### The runs -/

/-- Any logs and any answers. -/
def system (route : Route) : System Role World Panic Query.Answer :=
  feedSystem route (fun _ _ _ _ => True) fun _ _ => False

theorem covers (hsd : route.settings.startVerificationDelay + 2 ^ 32 ≤ 2 ^ 64)
    (hmc : route.settings.minChallengePeriod + 2 ^ 32 ≤ 2 ^ 64) (N : ℕ) :
    (protocol route N).Covers
      (((system route).restrict Careful).restrict (System.Until passClock N)) where
  rely_refl i s := by
    cases i with
    | indexer => exact Serves.refl s
    | dispatcher => exact Moves.refl s
  rely_trans i s t u h h' := by
    cases i with
    | indexer => exact Serves.trans h h'
    | dispatcher => exact Moves.trans h h'
  guar_rely := Role.guar_rely (fun _ _ h => h) fun _ _ h => h
  answer _ _ _ _ h := ⟨h.1.2, h.2⟩
  env _ _ h := h.elim
  init s h := by
    have hnone : ∀ task ∈ s.schedule.tasks, False := by
      rw [h.1]
      exact fun _ ht => absurd ht List.not_mem_nil
    refine ⟨fun e hc => absurd (h.claim? e) hc, fun task ht => (hnone task ht).elim,
      fun task ht => (hnone task ht).elim, fun e d hd => ?_⟩
    rw [h.claim?] at hd
    cases hd
  boot i p s t hp _ _ hI := by
    cases i with
    | indexer =>
      obtain ⟨n, rfl⟩ := hp
      exact Indexer.wp_feed (fun _ _ _ => trivial)
        (fun target log logs u hIu hu => wp_handle hmc hIu hu.1) n hI
    | dispatcher =>
      obtain ⟨n, rfl⟩ := hp
      exact wp_run hsd n hI
  durable _ _ := trivial
  restart _ _ _ h := h.elim

/-- **The waiting periods, in careful runs.** In every run in which an epoch is claimed once and its
verification does not start again while the task of its last start is queued, whatever is sent
in a pass has waited as long as the claim it sends says. -/
theorem periods_respected (route : Route)
    (hsd : route.settings.startVerificationDelay + 2 ^ 32 ≤ 2 ^ 64)
    (hmc : route.settings.minChallengePeriod + 2 ^ 32 ≤ 2 ^ 64) {n now : ℕ}
    {c : Config Role World Panic Query.Answer} {p : M Unit}
    (hc : ((system route).restrict Careful).Clocked passClock n c) (halive : c.Alive)
    (hp : ((system route).restrict Careful).Turn passClock c n .dispatcher p now) {tx : Tx}
    (htx : ((c.run .dispatcher p).thread .dispatcher).query? = some (.send tx)) :
    Respects route now tx (c.run .dispatcher p).store :=
  hc.issues (covers hsd hmc) halive hp htx

/-! ### A verification that starts twice -/

open Uniqueness (hand)

/-- A pass at 70 seconds, up to its verdict. -/
def passing : List (Role × ((q : Query) → q.Answer)) :=
  Sample.times 3 .dispatcher (Sample.node 70 0)

lemma careful_handing {log : Log} {o : (q : Query) → q.Answer} {w : World}
    (h : ∀ f, Careful .indexer (.logs .outbox f) (.ok [log]) w) (q : Query) :
    Careful .indexer q (Sample.handing .outbox log o q) w := by
  cases q with
  | logs p f =>
    cases p with
    | outbox => exact h f
    | inbox | ethereum => trivial
  | _ => trivial

lemma careful_passing (q : Query) (w : World) : Careful .dispatcher q (Sample.node 70 0 q) w := by
  cases q with
  | blockByNumber p n =>
    cases p with
    | outbox =>
      cases n with
      | latest =>
        show 70 < 2 ^ 32
        omega
      | finalized | number => trivial
    | inbox | ethereum => trivial
  | _ => trivial

/-- The verification has started at 40 seconds, and the pass is at its verdict. -/
def started : Config Role World Panic Query.Answer :=
  ((Sample.hungry.play (hand (Sample.claimed 5 1 3) (Sample.node 70 0))).play
    (hand (Sample.verificationStarted 5 4) (Sample.node 70 0))).play passing

lemma clocked_hungry {answer : Role → (q : Query) → q.Answer → World → Prop} :
    (feedSystem Sample.route answer fun _ _ => False).Clocked passClock 0 Sample.hungry := by
  refine .init ⟨rfl, rfl, rfl⟩ ?_
  rintro (_ | _)
  · exact ⟨4, rfl⟩
  · exact ⟨2, rfl⟩

lemma clocked_started :
    ((system Sample.route).restrict Careful).Clocked passClock 70 started := by
  have hclaimed : ((system Sample.route).restrict Careful).Clocked passClock 0
      (Sample.hungry.play (hand (Sample.claimed 5 1 3) (Sample.node 70 0))) := by
    refine System.clocked_visits Sample.mem_roles (p := fun w => w.log.isEmpty) (fun x hx q w hw => ?_)
      clocked_hungry (by decide +kernel) (by decide +kernel) (by decide +kernel)
    have hempty : w.log = [] := List.isEmpty_iff.mp hw
    have hev : (Sample.claimed 5 1 3).event? = some (.claimed 5 9 1) := by decide
    rw [List.eq_of_mem_replicate hx]
    refine ⟨trivial, careful_handing (fun f => ⟨fun e _ _ _ hc => ?_, ?_, ?_⟩) q⟩
    · obtain ⟨_, _, _, -, hm⟩ := hc
      rw [hempty] at hm
      cases hm
    · intro e h
      rw [hev] at h
      cases h
    · intro e _ h
      rw [hev] at h
      cases h
  have hverifying : ((system Sample.route).restrict Careful).Clocked passClock 0
      ((Sample.hungry.play (hand (Sample.claimed 5 1 3) (Sample.node 70 0))).play
        (hand (Sample.verificationStarted 5 4) (Sample.node 70 0))) := by
    refine System.clocked_visits Sample.mem_roles (p := fun w => ¬w.Queued 5 .verifySnapshot ∧
      (w.claim? 5).all fun d => partyOf d.honest = .none) (fun x hx q w hw => ?_) hclaimed
      (by decide +kernel) (by decide +kernel) (by decide +kernel)
    obtain ⟨hfree, hopen⟩ := of_decide_eq_true hw
    have hev : (Sample.verificationStarted 5 4).event? = some (.verificationStarted 5) := by decide
    rw [List.eq_of_mem_replicate hx]
    refine ⟨trivial, careful_handing (fun f => ⟨?_, fun e h d hd _ hg => ?_, ?_⟩) q⟩
    · intro e _ _ h
      rw [hev] at h
      cases h
    · rw [hev] at h
      cases h
      rcases hg with hq | hsettled
      · exact hfree hq
      · rw [hd] at hopen
        exact hsettled (of_decide_eq_true hopen)
    · intro e _ h
      rw [hev] at h
      cases h
  refine System.clocked_visits Sample.mem_roles (p := fun _ => true) (fun x hx q w _ => ?_) hverifying
    (by decide +kernel) (by decide +kernel) (by decide +kernel)
  rw [List.eq_of_mem_replicate hx]
  exact ⟨trivial, careful_passing q w⟩

/-- The `verifySnapshot` call for the claim of epoch 5, verified from `ts` on. -/
def verifyTx (ts block : ℕ) : Tx := .verifySnapshot 5 ⟨1, 9, 30, ts, block, .none, 0⟩

theorem periods_respected_sample : Respects Sample.route 70 (verifyTx 40 4)
    (started.run .dispatcher ((started.thread .dispatcher).resume (Sample.node 70 0))).store :=
  periods_respected Sample.route (by decide) (by decide) clocked_started
    (Config.alive_of_aliveOn Sample.mem_roles (by decide +kernel))
    (System.turn_resume (fun q => ⟨trivial, careful_passing q _⟩) (by decide +kernel))
    (by decide +kernel)

/-- The verification starts again at 60 seconds, before the pass. -/
def restarted : Config Role World Panic Query.Answer :=
  Sample.hungry.play (hand (Sample.claimed 5 1 3) (Sample.node 70 0) ++
    hand (Sample.verificationStarted 5 4) (Sample.node 70 0) ++
      hand (Sample.verificationStarted 5 6) (Sample.node 70 0) ++ passing)

/-- The task of the first start is executed at 70 seconds, for a claim that has to wait for 80. -/
theorem sent_early : ∃ c p, (system Sample.route).Clocked passClock 70 c ∧ c.Alive ∧
    (system Sample.route).Turn passClock c 70 .dispatcher p 70 ∧
    ((c.run .dispatcher p).thread .dispatcher).query? = some (.send (verifyTx 60 6)) ∧
    ¬Respects Sample.route 70 (verifyTx 60 6) (c.run .dispatcher p).store := by
  refine ⟨restarted, (restarted.thread .dispatcher).resume (Sample.node 70 0), ?_,
    Config.alive_of_aliveOn Sample.mem_roles (by decide +kernel), ?_, by decide +kernel, ?_⟩
  · exact System.clocked_visits Sample.mem_roles (p := fun _ => true) (fun _ _ _ _ _ => trivial)
      clocked_hungry (by decide +kernel) (by decide +kernel) (by decide +kernel)
  · exact System.turn_resume (n := 70) (fun q => trivial) (by decide +kernel)
  · rintro ⟨d, hd, -, hle⟩
    have hclaim : ((restarted.run .dispatcher ((restarted.thread .dispatcher).resume
        (Sample.node 70 0))).store.claim? 5).map (·.timestampVerification) = some 60 := by
      decide +kernel
    rw [hd] at hclaim
    have hts : d.timestampVerification = 60 := Option.some.inj hclaim
    have hperiod : Sample.route.settings.minChallengePeriod = 20 := rfl
    omega

end Periods

end VeaValidator
