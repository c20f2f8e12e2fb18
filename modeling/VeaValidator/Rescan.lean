import VeaValidator.Scanning

/-!
What a scan reads again.

A chunk starts at the cursor, the last block of the chunk before, so the logs of that block are
read twice. A handler that meets a log for the second time finds the route in a state the log
does not fit: the claim is stored already, or gone. Another log gets lost, a `Claimed` that is
read while a relay task of its epoch is queued, and then the later logs of the epoch find no
claim. In every other run the handlers find what they expect.
-/

namespace VeaValidator

open Coop

namespace Rescan

/-! ### The history of the outbox -/

/-- The logs of the outbox from block `start` on: sorted by their blocks, those of an epoch in
the order of its life, and the `Claimed` one before the others. -/
structure History (chain : List Log) (start : ℕ) : Prop where
  mined : ∀ log ∈ chain, ∃ n, log.blockNumber = some n ∧ start ≤ n
  sorted : chain.Pairwise fun a b => a.blockNumber.getD 0 ≤ b.blockNumber.getD 0
  order : chain.Pairwise fun a b => ∀ ev ev', a.event? = some ev → b.event? = some ev' →
    ev.epoch = ev'.epoch → ev.rank < ev'.rank
  rooted : ∀ p log q ev, chain = p ++ log :: q → log.event? = some ev → ev.rank ≠ 0 →
    ∃ c ∈ p, ∃ claimer root, c.event? = some (.claimed ev.epoch claimer root)

/-- The node of the outbox answers with the logs up to its head. -/
def Faithful (chain : List Log) : Role → (q : Query) → q.Answer → World → Prop
  | .indexer, .blockByNumber p .latest, .ok (some b), w => b.number ≤ w.heads.get p
  | .indexer, .logs .outbox f, .ok logs, w =>
    logs = chain.filter fun log => log.Within f.fromBlock (min f.toBlock (w.heads.get .outbox))
  | _, _, _, _ => True

/-! ### What has been handled -/

/-- The `Claimed` log of `e` has been handled. -/
def Begun (w : World) (e : ℕ) : Prop :=
  ∃ log claimer root, log.event? = some (.claimed e claimer root) ∧ .handled .outbox log ∈ w.log

/-- The same logs of the outbox have been handled. -/
def Same (s t : World) : Prop :=
  ∀ log, .handled .outbox log ∈ t.log ↔ .handled .outbox log ∈ s.log

variable {chain : List Log} {s t u : World} {e : ℕ} {log : Log}

lemma Same.refl (s : World) : Same s s := fun _ => Iff.rfl

lemma Same.trans (h : Same s t) (h' : Same t u) : Same s u := fun log => (h' log).trans (h log)

lemma Same.begun (h : Same s t) : Begun t e ↔ Begun s e := by
  unfold Begun
  simp only [h _]

lemma Same.ended (h : Same s t) : Over t e ↔ Over s e := Lifecycle.over_congr h

lemma same_note {o : Obs} (ho : ∀ log, o ≠ .handled .outbox log) : Same s (s.note o) := by
  intro log
  rw [World.log_note, List.mem_cons]
  exact or_iff_right fun h => ho log h.symm

lemma same_addTask (task : Task) : Same s (s.addTask task) := same_note nofun

lemma same_invalidateTasks (e : ℕ) (ks : List KindName) : Same s (s.invalidateTasks e ks) :=
  s.handled_invalidateTasks e ks .outbox

lemma same_finish (now : ℕ) (task : Task) (result : Except String Unit) :
    Same s (Dispatcher.finish now task result s) :=
  Dispatcher.handled_finish now task result s .outbox

/-! ### The invariant -/

/-- Before an epoch is claimed only relay tasks are queued for it, until it is over its claim is
stored, and it is withdrawn from when it is over. -/
structure Inv (w : World) : Prop where
  fresh : ∀ e, ¬Begun w e → w.claim? e = none ∧ ∀ k, w.Queued e k → k = .executeRelay
  stored : ∀ e, Begun w e → ¬Over w e → w.claim? e ≠ none
  withdraws : ∀ e, w.Queued e .withdrawDeposit → Over w e

/-- What handles nothing, stores and loses no claim, and queues nothing. -/
lemma Inv.mono (h : Inv s) (hsame : Same s t) (hclaim : ∀ e, t.claim? e = none ↔ s.claim? e = none)
    (hqueue : ∀ e k, t.Queued e k → s.Queued e k) : Inv t where
  fresh e hb := by
    obtain ⟨hnone, hk⟩ := h.fresh e fun hs => hb (hsame.begun.mpr hs)
    exact ⟨(hclaim e).mpr hnone, fun k hq => hk k (hqueue e k hq)⟩
  stored e hb ho hnone :=
    h.stored e (hsame.begun.mp hb) (fun hs => ho (hsame.ended.mpr hs)) ((hclaim e).mp hnone)
  withdraws e hq := hsame.ended.mpr (h.withdraws e (hqueue e _ hq))

lemma inv_note {o : Obs} (h : Inv s) (ho : ∀ log, o ≠ .handled .outbox log) : Inv (s.note o) :=
  h.mono (same_note ho) (fun _ => Iff.rfl) fun _ _ hq => hq

lemma inv_addTask {task : Task} (h : Inv s)
    (hb : task.kind.name ≠ .executeRelay → Begun s task.epoch)
    (hw : task.kind.name ≠ .withdrawDeposit) : Inv (s.addTask task) where
  fresh e he := by
    have hs : ¬Begun s e := fun hs => he ((same_addTask task).begun.mpr hs)
    obtain ⟨hnone, hk⟩ := h.fresh e hs
    refine ⟨hnone, fun k hq => ?_⟩
    rcases (World.queued_addTask _ _ _ _).mp hq with hq | ⟨rfl, rfl⟩
    · exact hk k hq
    · by_contra hne
      exact hs (hb hne)
  stored e he ho :=
    h.stored e ((same_addTask task).begun.mp he) fun hs => ho ((same_addTask task).ended.mpr hs)
  withdraws e hq := by
    rcases (World.queued_addTask _ _ _ _).mp hq with hq | ⟨-, hk⟩
    · exact (same_addTask task).ended.mpr (h.withdraws e hq)
    · exact absurd hk.symm hw

lemma inv_finish {now : ℕ} {task : Task} {result : Except String Unit} (h : Inv s) :
    Inv (Dispatcher.finish now task result s) :=
  h.mono (same_finish now task result) (fun e => by rw [Dispatcher.claim?_finish])
    fun _ _ hq => ((Dispatcher.queued_finish _ _ _ _ _ _).mp hq).1

/-- The claim of an epoch that is over may go. -/
lemma inv_removeClaim (h : Inv s) (ho : Over s e) : Inv (s.removeClaim e) where
  fresh e' hb := by
    obtain ⟨hnone, hk⟩ := h.fresh e' hb
    refine ⟨?_, hk⟩
    rw [World.claim?_removeClaim]
    split
    · rfl
    · exact hnone
  stored e' hb ho' hnone := by
    rw [World.claim?_removeClaim] at hnone
    split at hnone
    · next he =>
      subst he
      exact ho' ho
    · exact h.stored e' hb ho' hnone
  withdraws := h.withdraws

/-! ### The protocol -/

/-- A chunk holds no `Claimed` log that has been handled, no handled log of an epoch that is
over, and no `Claimed` log of an epoch with a relay task in the queue. -/
def Careful : Role → (q : Query) → q.Answer → World → Prop
  | .indexer, .logs .outbox _, .ok logs, w => ∀ log ∈ logs, ∀ ev, log.event? = some ev →
    (.handled .outbox log ∈ w.log → ev.rank ≠ 0 ∧ ¬Over w ev.epoch) ∧
      (ev.rank = 0 → ¬w.Queued ev.epoch .executeRelay)
  | _, _, _, _ => True

/-- The panics of a handler that does not find what it expects. -/
def Surprise : Panic → Prop
  | .duplicateClaim _ | .claimNotFound _ | .cannotUpdateClaim _ => True
  | _ => False

/-- The part of the world that only the indexer and the chains move. -/
structure Stays (s t : World) : Prop where
  cursor : ∀ target, t.lastBlock target = s.lastBlock target
  catchup : ∀ target, t.catchup target = s.catchup target
  heads : ∀ p, s.heads.get p ≤ t.heads.get p

/-- What the dispatcher and the chains do. -/
structure Others (s t : World) : Prop extends Stays s t where
  same : Same s t
  claim : ∀ e, s.claim? e ≠ none → t.claim? e = none → Over s e
  relay : ∀ e, t.Queued e .executeRelay → s.Queued e .executeRelay

lemma Stays.refl (s : World) : Stays s s := ⟨fun _ => rfl, fun _ => rfl, fun _ => le_rfl⟩

lemma Stays.trans (h : Stays s t) (h' : Stays t u) : Stays s u :=
  ⟨fun target => (h'.cursor target).trans (h.cursor target),
    fun target => (h'.catchup target).trans (h.catchup target),
    fun p => (h.heads p).trans (h'.heads p)⟩

lemma Others.refl (s : World) : Others s s :=
  ⟨Stays.refl s, Same.refl s, fun _ hc hnone => absurd hnone hc, fun _ h => h⟩

lemma Others.trans (h : Others s t) (h' : Others t u) : Others s u := by
  refine ⟨h.toStays.trans h'.toStays, h.same.trans h'.same, fun e hc hnone => ?_,
    fun e hq => h.relay e (h'.relay e hq)⟩
  by_cases ht : t.claim? e = none
  · exact h.claim e hc ht
  · exact h.same.ended.mp (h'.claim e ht hnone)

/-- The indexer is never surprised. -/
@[simps]
def protocol (chain : List Log) : Protocol Role World Panic Query.Answer where
  inv := Inv
  durable _ := True
  rely
    | .indexer, s, t => Others s t
    | .dispatcher, s, t => ∀ log, .handled .outbox log ∈ s.log → .handled .outbox log ∈ t.log
  guar
    | .indexer, s, t => ∀ log, .handled .outbox log ∈ s.log → .handled .outbox log ∈ t.log
    | .dispatcher, s, t => Others s t
  answer i q a s := Faithful chain i q a s ∧ Careful i q a s
  issue _ _ _ := True
  fault
    | .indexer, p, _ => ¬Surprise p
    | .dispatcher, _, _ => True

lemma patient_indexer {J : World → Prop} (h : ∀ s t, J s → Others s t → J t) :
    Patient (protocol chain) .indexer J where
  rely s t hJ ht _ := h s t hJ ht
  issue _ _ _ _ _ := trivial
  fault p _ hp _ _ hs := by
    cases p <;> first | exact hp.elim | exact hs.elim

/-! ### The handlers -/

section
variable {route : Route} {event : Event}

/-- The state an event is handled in: its epoch is not over, and has been claimed unless this
is the claim. -/
structure Fits (event : Event) (w : World) : Prop where
  ended : ¬Over w event.epoch
  claimed : event.rank = 0 → ¬Begun w event.epoch ∧ ¬w.Queued event.epoch .executeRelay
  later : event.rank ≠ 0 → Begun w event.epoch

/-- What a handler changes, besides its claim and its tasks: nothing, until it says that it has
handled its log. -/
structure Changed (s t : World) : Prop where
  stays : Stays s t
  same : Same s t
  relay : ∀ e, t.Queued e .executeRelay → s.Queued e .executeRelay

lemma Changed.refl (s : World) : Changed s s := ⟨Stays.refl s, Same.refl s, fun _ h => h⟩

lemma Changed.trans (h : Changed s t) (h' : Changed t u) : Changed s u :=
  ⟨h.stays.trans h'.stays, h.same.trans h'.same, fun e hq => h.relay e (h'.relay e hq)⟩

lemma Others.changed (h : Others s t) : Changed s t := ⟨h.toStays, h.same, h.relay⟩

lemma changed_storeClaim (c : ClaimData) : Changed s (s.storeClaim c) :=
  ⟨⟨fun _ => rfl, fun _ => rfl, fun _ => le_rfl⟩, Same.refl s, fun _ h => h⟩

lemma changed_updateClaim (e : ℕ) (f : ClaimData → ClaimData) : Changed s (s.updateClaim e f) :=
  ⟨⟨fun _ => rfl, fun _ => rfl, fun _ => le_rfl⟩, Same.refl s, fun _ h => h⟩

lemma changed_addTask (task : Task) (hk : task.kind.name ≠ .executeRelay) :
    Changed s (s.addTask task) := by
  refine ⟨⟨fun _ => rfl, fun _ => rfl, fun _ => le_rfl⟩, same_addTask task, fun e hq => ?_⟩
  rcases (World.queued_addTask _ _ _ _).mp hq with hq | ⟨-, hk'⟩
  · exact hq
  · exact absurd hk'.symm hk

lemma changed_invalidateTasks (e : ℕ) (ks : List KindName) : Changed s (s.invalidateTasks e ks) :=
  ⟨⟨fun _ => rfl, fun _ => rfl, fun _ => le_rfl⟩, same_invalidateTasks e ks,
    fun _ hq => ((World.queued_invalidateTasks _ _ _ _ _).mp hq).1⟩

/-- What a handler leaves behind, before it says that it has handled its log. -/
structure Handled (s : World) (log : Log) (t : World) : Prop where
  inv : Inv (t.note (.handled .outbox log))
  changed : Changed s t

/-- What a handler knows of its epoch while it waits. -/
structure Waits (s : World) (e : ℕ) (t : World) : Prop where
  changed : Changed s t
  claim : s.claim? e ≠ none → t.claim? e ≠ none

lemma Waits.refl (s : World) (e : ℕ) : Waits s e s := ⟨Changed.refl s, fun h => h⟩

lemma Waits.others (ho : ¬Over s e) (h : Waits s e t) (hc : Others t u) : Waits s e u := by
  refine ⟨h.changed.trans hc.changed, fun hs hu => ?_⟩
  exact ho (h.changed.same.ended.mp (hc.claim e (h.claim hs) hu))

/-- A handler that finds its claim changes it, drops some tasks and schedules one. -/
lemma changed_schedule {f : ClaimData → ClaimData} {ks : List KindName} (task : Task)
    (hk : task.kind.name ≠ .executeRelay) :
    Changed s (((s.updateClaim e f).invalidateTasks e ks).addTask task) :=
  ((changed_updateClaim e f).trans (changed_invalidateTasks e ks)).trans (changed_addTask task hk)

lemma begun_note {o : Obs} : Begun (s.note o) e ↔ Begun s e ∨ ∃ log claimer root,
    log.event? = some (.claimed e claimer root) ∧ o = .handled .outbox log := by
  constructor
  · rintro ⟨log, claimer, root, hev, hm⟩
    rcases List.mem_cons.mp hm with rfl | hm
    · exact .inr ⟨log, claimer, root, hev, rfl⟩
    · exact .inl ⟨log, claimer, root, hev, hm⟩
  · rintro (⟨log, claimer, root, hev, hm⟩ | ⟨log, claimer, root, hev, rfl⟩)
    · exact ⟨log, claimer, root, hev, List.mem_cons_of_mem _ hm⟩
    · exact ⟨log, claimer, root, hev, List.mem_cons_self⟩

/-- The line of a handler: it begins what it claims and ends what it verifies. -/
lemma inv_handled (h : Inv t)
    (hclaimed : ∀ e claimer root, log.event? = some (.claimed e claimer root) → t.claim? e ≠ none) :
    Inv (t.note (.handled .outbox log)) where
  fresh e hb := h.fresh e fun ht => hb (begun_note.mpr (.inl ht))
  stored e hb ho := by
    have ho' : ¬Over t e := fun ht => ho (Lifecycle.over_note.mpr (.inl ht))
    rcases begun_note.mp hb with ht | ⟨log', claimer, root, hev, heq⟩
    · exact h.stored e ht ho'
    · cases heq
      exact hclaimed e claimer root hev
  withdraws e hq := Lifecycle.over_note.mpr (.inl (h.withdraws e hq))

/-- A fresh claim. -/
lemma inv_fresh {claimer : Address} {root : Word} {ts ts' : ℕ} (h : Inv s)
    (hev : log.event? = some (.claimed e claimer root)) :
    Inv (((s.storeClaim (ClaimData.fresh e root claimer ts)).addTask ⟨e, ts', .validateClaim⟩).note
      (.handled .outbox log)) where
  fresh e' hb := by
    have hne : e' ≠ e := by
      rintro rfl
      exact hb (begun_note.mpr (.inr ⟨log, claimer, root, hev, rfl⟩))
    obtain ⟨hnone, hk⟩ := h.fresh e' fun hs =>
      hb (begun_note.mpr (.inl ((same_addTask _).begun.mpr hs)))
    refine ⟨?_, fun k hq => ?_⟩
    · rw [World.claim?_note, World.claim?_addTask, World.claim?_storeClaim, hnone]
      simp [ClaimData.fresh, hne.symm]
    · rcases (World.queued_addTask _ _ _ _).mp hq with hq | ⟨he, -⟩
      · exact hk k hq
      · exact absurd he hne
  stored e' hb ho := by
    rw [World.claim?_note, World.claim?_addTask, World.claim?_storeClaim, ne_eq,
      Option.or_eq_none_iff]
    rcases begun_note.mp hb with hs | ⟨log', claimer', root', hev', heq⟩
    · have hs' : Begun s e' := (same_addTask _).begun.mp hs
      have ho' : ¬Over s e' := fun hov =>
        ho (Lifecycle.over_note.mpr (.inl ((same_addTask _).ended.mpr hov)))
      exact fun hnone => h.stored e' hs' ho' hnone.1
    · cases heq
      rw [hev] at hev'
      cases hev'
      simp [ClaimData.fresh]
  withdraws e' hq := by
    rcases (World.queued_addTask _ _ _ _).mp hq with hq | ⟨-, hk⟩
    · exact Lifecycle.over_note.mpr (.inl ((same_addTask _).ended.mpr (h.withdraws e' hq)))
    · cases hk

lemma inv_update {f : ClaimData → ClaimData} {ks : List KindName}
    (hf : ∀ c, (f c).epoch = c.epoch) (h : Inv s) :
    Inv ((s.updateClaim e f).invalidateTasks e ks) :=
  h.mono (same_invalidateTasks e ks)
    (fun e' => by rw [World.claim?_invalidateTasks, World.claim?_updateClaim_eq_none _ _ _ _ hf])
    fun _ _ hq => ((World.queued_invalidateTasks _ _ _ _ _).mp hq).1

/-- A settled claim: the withdrawal is queued, and the line of the handler ends the epoch. -/
lemma inv_settled {ts : ℕ} (h : Inv s) (hb : Begun s e) (hev : log.event? = some (.verified e)) :
    Inv ((s.addTask ⟨e, ts, .withdrawDeposit⟩).note (.handled .outbox log)) := by
  have hover : Over ((s.addTask ⟨e, ts, .withdrawDeposit⟩).note (.handled .outbox log)) e :=
    Lifecycle.over_note.mpr (.inr ⟨log, hev, rfl⟩)
  have hbegun : ∀ e', Begun ((s.addTask ⟨e, ts, .withdrawDeposit⟩).note (.handled .outbox log)) e' ↔
      Begun s e' := by
    intro e'
    rw [begun_note, (same_addTask _).begun]
    refine or_iff_left ?_
    rintro ⟨log', claimer, root, hev', heq⟩
    cases heq
    rw [hev] at hev'
    cases hev'
  refine ⟨fun e' he => ?_, fun e' he ho => ?_, fun e' hq => ?_⟩
  · rw [hbegun] at he
    obtain ⟨hnone, hk⟩ := h.fresh e' he
    refine ⟨hnone, fun k hq => ?_⟩
    rcases (World.queued_addTask _ _ _ _).mp hq with hq | ⟨rfl, -⟩
    · exact hk k hq
    · exact absurd hb he
  · exact h.stored e' ((hbegun e').mp he) fun hs =>
      ho (Lifecycle.over_note.mpr (.inl ((same_addTask _).ended.mpr hs)))
  · rcases (World.queued_addTask _ _ _ _).mp hq with hq | ⟨rfl, -⟩
    · exact Lifecycle.over_note.mpr (.inl ((same_addTask _).ended.mpr (h.withdraws e' hq)))
    · exact hover

lemma wp_act (hI : Inv s) (hev : log.event? = some event) (hfits : Fits event s) :
    (Indexer.act route log event).wp (protocol chain) .indexer (fun _ => Handled s log) s := by
  have hp : Patient (protocol chain) .indexer (Waits s event.epoch) :=
    patient_indexer fun _ _ h hc => h.others hfits.ended hc
  cases event with
  | claimed e claimer root =>
    obtain ⟨hnb, hrelay⟩ := hfits.claimed rfl
    refine Indexer.wp_claimed hp hI (.refl s e) (fun t hIt ht hany => ?_)
      fun ts t _ hIt ht _ => ?_
    · -- Only a relay task could be queued, and there is none.
      obtain ⟨task, htask, he⟩ := hany
      have hnb' : ¬Begun t e := fun hb => hnb (ht.changed.same.begun.mp hb)
      have hq := World.queued_of_mem htask
      rw [he] at hq
      have hk := (hIt.fresh e hnb').2 _ hq
      rw [hk] at hq
      exact absurd (ht.changed.relay e hq) hrelay
    · have hnb' : ¬Begun t e := fun hb => hnb (ht.changed.same.begun.mp hb)
      rw [Prog.wp_bind, wp_store]
      refine ⟨fun hne => absurd (hIt.fresh e hnb').1 hne, fun _ => ⟨fun _ h => h, trivial,
        fun log' h => List.mem_cons_of_mem _ h, trivial, inv_fresh hIt hev, ?_⟩⟩
      exact ht.changed.trans ((changed_storeClaim _).trans (changed_addTask _ (by simp [TaskKind.name])))
  | verificationStarted e =>
    have hb : Begun s e := hfits.later (by simp [Event.rank])
    have hstored : s.claim? e ≠ none := hI.stored e hb hfits.ended
    refine Indexer.wp_verificationStarted hp hI (.refl s e)
      (fun hnone => absurd hnone hstored) fun _ ts n t _ _ hIt ht => ?_
    have hb' : Begun t e := ht.changed.same.begun.mpr hb
    rw [Prog.wp_bind, wp_update]
    refine ⟨fun hnone => absurd hnone (ht.claim hstored), fun d _ => ⟨fun _ h => h, trivial,
      fun log' h => (World.handled_invalidateTasks _ _ _ _ _).mpr h, trivial,
      fun log' h => List.mem_cons_of_mem _ h, trivial, ?_, ?_⟩⟩
    · refine inv_handled (inv_addTask (inv_update (fun _ => rfl) hIt) (fun _ => ?_) (by simp [TaskKind.name])) ?_
      · exact (same_invalidateTasks _ _).begun.mpr hb'
      · intro e' claimer root hev'
        rw [hev] at hev'
        cases hev'
    · exact ht.changed.trans (changed_schedule _ (by simp [TaskKind.name]))
  | challenged e challenger =>
    have hb : Begun s e := hfits.later (by simp [Event.rank])
    have hstored : s.claim? e ≠ none := hI.stored e hb hfits.ended
    refine Indexer.wp_challenged hp hp hI (.refl s e) (fun hnone => absurd hnone hstored) fun _ => ?_
    rw [Prog.wp_bind, wp_update]
    refine ⟨fun hnone => absurd hnone hstored, fun d _ => ⟨fun _ h => h, trivial,
      fun log' h => (World.handled_invalidateTasks _ _ _ _ _).mpr h, trivial,
      inv_update (fun _ => rfl) hI, ⟨(changed_updateClaim e _).trans (changed_invalidateTasks e _), fun _ => ?_⟩,
      fun ts u _ hIu hu => ⟨fun log' h => List.mem_cons_of_mem _ h, trivial, ?_, ?_⟩⟩⟩
    · exact (World.stored_updateClaim _ _ _ (ClaimData.challengeBy challenger) fun _ => rfl).mpr
        hstored
    · refine inv_handled (inv_addTask hIu (fun _ => ?_) (by simp [TaskKind.name])) ?_
      · exact hu.changed.same.begun.mpr hb
      · intro e' claimer root hev'
        rw [hev] at hev'
        cases hev'
    · exact hu.changed.trans (changed_addTask _ (by simp [TaskKind.name]))
  | verified e =>
    have hb : Begun s e := hfits.later (by simp [Event.rank])
    have hstored : s.claim? e ≠ none := hI.stored e hb hfits.ended
    refine Indexer.wp_verified (D := fun _ _ => True) hp hI (.refl s e) (fun _ _ _ h => h)
      (fun _ _ _ _ _ => trivial) (fun _ _ _ _ _ _ _ => trivial)
      (fun ts t _ _ ht hnone => absurd hnone (ht.claim hstored)) fun ts d root t _ _ hIt ht _ => ?_
    have hb' : Begun t e := ht.changed.same.begun.mpr hb
    rw [Prog.wp_bind, wp_update]
    refine ⟨fun hnone => absurd hnone (ht.claim hstored), fun d' _ => ⟨fun _ h => h, trivial,
      fun log' h => (World.handled_invalidateTasks _ _ _ _ _).mpr h, trivial,
      fun log' h => List.mem_cons_of_mem _ h, trivial, ?_, ?_⟩⟩
    · exact inv_settled (inv_update (fun _ => rfl) hIt)
        ((same_invalidateTasks _ _).begun.mpr hb') hev
    · exact ht.changed.trans (changed_schedule _ (by simp [TaskKind.name]))

/-- `t` is `s` with one more log handled. -/
structure Next (s : World) (log : Log) (t : World) : Prop where
  stays : Stays s t
  handled : ∀ log', .handled .outbox log' ∈ t.log ↔ .handled .outbox log' ∈ s.log ∨ log' = log
  relay : ∀ e, t.Queued e .executeRelay → s.Queued e .executeRelay

lemma wp_handle (hI : Inv s) (hfits : ∀ event, log.event? = some event → Fits event s) :
    (Indexer.handle route .outbox log).wp (protocol chain) .indexer
      (fun _ t => Inv t ∧ Next s log t) s := by
  have hp : Patient (protocol chain) .indexer fun _ => True := patient_indexer fun _ _ _ _ => trivial
  refine Indexer.wp_handle (D := Handled s log) ?_ fun t ht => ?_
  · refine Indexer.wp_dispatchOutboxEvent hp hI trivial (fun hnone => ?_) fun event hev => ?_
    · refine ⟨inv_handled hI fun e claimer root hev => ?_, Changed.refl s⟩
      rw [hnone] at hev
      cases hev
    · exact wp_act hI hev (hfits event hev)
  · refine ⟨fun log' h => List.mem_cons_of_mem _ h, trivial, ht.inv,
      ht.changed.stays.trans ⟨fun _ => rfl, fun _ => rfl, fun _ => le_rfl⟩, fun log' => ?_,
      ht.changed.relay⟩
    have hiff : Obs.handled .outbox log' = .handled .outbox log ↔ log' = log := by simp
    rw [World.log_note, List.mem_cons, hiff, ht.changed.same, or_comm]

/-- A log of the inbox is none of the outbox, and the task it may lead to is a relay. -/
lemma wp_handle_inbox (hI : Inv s) :
    (Indexer.handle route .inbox log).wp (protocol chain) .indexer
      (fun _ t => Inv t ∧ Stays s t ∧ Same s t) s := by
  have hp : Patient (protocol chain) .indexer fun t => Stays s t ∧ Same s t :=
    patient_indexer fun t u h hc => ⟨h.1.trans hc.toStays, h.2.trans hc.same⟩
  have hJ : Stays s s ∧ Same s s := ⟨Stays.refl s, Same.refl s⟩
  have hstep : ∀ {t u : World}, Stays s t ∧ Same s t → Stays t u → Same t u →
      Stays s u ∧ Same s u := fun h hst hsa => ⟨h.1.trans hst, h.2.trans hsa⟩
  refine Indexer.wp_handle (D := fun t => Inv t ∧ Stays s t ∧ Same s t) ?_ fun t ht => ?_
  · refine Indexer.wp_dispatchInboxEvent (fun _ => ⟨hI, hJ⟩) (fun _ => ?_) fun _ => ?_
    · refine Indexer.wp_handleSnapshotSent hp hI hJ (fun t hIt ht _ => ⟨hIt, ht⟩) ?_
      intro e task t _ _ _ _ hkind hIt ht
      have hIa : Inv (t.addTask task) :=
        inv_addTask hIt (fun hk => absurd hkind hk) (by simp [hkind])
      exact ⟨fun log' h => List.mem_cons_of_mem _ h, trivial, hIa,
        hstep ht ⟨fun _ => rfl, fun _ => rfl, fun _ => le_rfl⟩ (same_addTask task)⟩
    · refine Indexer.wp_handleSnapshotSaved hp hI hJ ⟨hI, hJ⟩ fun n => ?_
      exact ⟨fun _ h => h, trivial, hI.mono (Same.refl s) (fun _ => Iff.rfl) fun _ _ h => h,
        ⟨fun _ => rfl, fun _ => rfl, fun _ => le_rfl⟩, Same.refl s⟩
  · exact ⟨fun log' h => List.mem_cons_of_mem _ h, trivial, inv_note ht.1 (by simp),
      hstep ht.2 ⟨fun _ => rfl, fun _ => rfl, fun _ => le_rfl⟩ (same_note (by simp))⟩

end

/-! ### The place of the indexer in the chain -/

/-- The logs `done` have been handled, the logs `rest` are not before the cursor. -/
structure At (chain done rest : List Log) (block : ℕ) (w : World) : Prop where
  split : chain = done ++ rest
  handled : ∀ log, .handled .outbox log ∈ w.log ↔ log ∈ done
  cursor : w.lastBlock .outbox = some block
  ahead : ∀ log ∈ rest, ∀ n, log.blockNumber = some n → block ≤ n

/-- The targets of the catch-ups are not beyond the heads. -/
structure Bounded (w : World) : Prop where
  cursor : w.lastBlock .inbox ≠ none
  bound : ∀ target, (w.catchup target).target ≤ w.heads.get (Indexer.provider target)

/-- The indexer is somewhere in the chain. -/
def Placed (chain : List Log) (w : World) : Prop :=
  Bounded w ∧ ∃ done rest block, At chain done rest block w

section
variable {done rest : List Log} {block : ℕ}

lemma At.stays (h : At chain done rest block s) (hst : Stays s t) (hsa : Same s t) :
    At chain done rest block t :=
  ⟨h.split, fun log => (hsa log).trans (h.handled log), (hst.cursor .outbox).trans h.cursor, h.ahead⟩

/-- A log that is handled again changes nothing, the next one is done. -/
lemma At.next {l : List Log} (h : At chain done (log :: l) block s) (hn : Next s log t) :
    At chain (done ++ [log]) l block t where
  split := by rw [h.split, List.append_assoc, List.singleton_append]
  handled log' := by rw [hn.handled, h.handled, List.mem_append, List.mem_singleton]
  cursor := (hn.stays.cursor .outbox).trans h.cursor
  ahead log' hl := h.ahead log' (List.mem_cons_of_mem _ hl)

lemma At.again (h : At chain done rest block s) (hl : log ∈ done) (hn : Next s log t) :
    At chain done rest block t where
  split := h.split
  handled log' := by
    rw [hn.handled, h.handled]
    refine or_iff_left_of_imp ?_
    rintro rfl
    exact hl
  cursor := (hn.stays.cursor .outbox).trans h.cursor
  ahead := h.ahead

lemma At.same (h : At chain done rest block s) (h' : At chain done rest block t) : Same s t :=
  fun log => (h'.handled log).trans (h.handled log).symm

lemma Bounded.stays (h : Bounded s) (hst : Stays s t) : Bounded t := by
  refine ⟨by rw [hst.cursor]; exact h.cursor, fun target => ?_⟩
  rw [hst.catchup]
  exact (h.bound target).trans (hst.heads _)

/-- An event that is not a claim comes after the claim of its epoch. -/
lemma begun_of_rooted {start : ℕ} {p q : List Log} {event : Event} (h : History chain start)
    (hs : At chain done rest block s) (hchain : chain = p ++ log :: q) (hp : ∀ c ∈ p, c ∈ done)
    (hev : log.event? = some event) (hr : event.rank ≠ 0) : Begun s event.epoch := by
  obtain ⟨c, hc, claimer, root, hcev⟩ := h.rooted p log q event hchain hev hr
  exact ⟨c, claimer, root, hcev, (hs.handled c).mpr (hp c hc)⟩

/-- The next log of the chain comes at the right moment. -/
lemma fits_next {start : ℕ} {l : List Log} {event : Event} (h : History chain start)
    (hs : At chain done (log :: l) block s) (hev : log.event? = some event)
    (hrelay : event.rank = 0 → ¬s.Queued event.epoch .executeRelay) : Fits event s := by
  have horder := h.order
  rw [hs.split, List.pairwise_append] at horder
  have hrank : ∀ c ∈ done, ∀ ev, c.event? = some ev → ev.epoch = event.epoch →
      ev.rank < event.rank :=
    fun c hc ev hcev he => horder.2.2 c hc log List.mem_cons_self ev event hcev hev he
  refine ⟨?_, fun hr => ⟨?_, hrelay hr⟩, fun hr => ?_⟩
  · rintro ⟨v, hvev, hv⟩
    have hlt := hrank v ((hs.handled v).mp hv) _ hvev rfl
    cases event <;> simp [Event.rank] at hlt
  · rintro ⟨c, claimer, root, hcev, hc⟩
    have hlt := hrank c ((hs.handled c).mp hc) _ hcev rfl
    rw [hr] at hlt
    exact Nat.not_lt_zero _ hlt
  · exact begun_of_rooted h hs hs.split (fun c hc => hc) hev hr

/-- A log that is read again is harmless when its epoch is still open. -/
lemma fits_again {start : ℕ} {event : Event} (h : History chain start)
    (hs : At chain done rest block s) (hl : log ∈ done) (hev : log.event? = some event)
    (hr : event.rank ≠ 0) (ho : ¬Over s event.epoch) : Fits event s := by
  obtain ⟨p, q, hpq⟩ := List.append_of_mem hl
  have hchain : chain = p ++ log :: (q ++ rest) := by
    rw [hs.split, hpq, List.append_assoc, List.cons_append]
  refine ⟨ho, fun h0 => absurd h0 hr, fun _ => ?_⟩
  exact begun_of_rooted h hs hchain (fun c hc => hpq ▸ List.mem_append_left _ hc) hev hr

variable {route : Route} {start : ℕ}

/-- The logs of the block at the cursor, read again. -/
lemma wp_again (h : History chain start) {l : List Log}
    (hl : ∀ log ∈ l, log ∈ done ∧ ∀ event, log.event? = some event →
      event.rank ≠ 0 ∧ ¬Over s event.epoch)
    (hI : Inv s) (hB : Bounded s) (hs : At chain done rest block s) :
    (forM l (Indexer.handle route .outbox)).wp (protocol chain) .indexer
      (fun _ t => Inv t ∧ Bounded t ∧ At chain done rest block t ∧
        ∀ e, t.Queued e .executeRelay → s.Queued e .executeRelay) s := by
  refine Prog.wp_mono (fun _ t ht => ht.2) (Prog.wp_forM (J := fun l' t => (∀ x ∈ l', x ∈ l) ∧
    Inv t ∧ Bounded t ∧ At chain done rest block t ∧
      ∀ e, t.Queued e .executeRelay → s.Queued e .executeRelay) ?_
    ⟨fun x hx => hx, hI, hB, hs, fun _ hq => hq⟩)
  rintro log l' t ⟨hsub, hIt, hBt, ht, hrelay⟩
  obtain ⟨hmem, hopen⟩ := hl log (hsub log List.mem_cons_self)
  refine Prog.wp_mono (fun _ u hu => ?_) (wp_handle hIt fun event hev => ?_)
  · obtain ⟨hIu, hn⟩ := hu
    exact ⟨fun x hx => hsub x (List.mem_cons_of_mem _ hx), hIu, hBt.stays hn.stays,
      ht.again hmem hn, fun e hq => hrelay e (hn.relay e hq)⟩
  · obtain ⟨hr, ho⟩ := hopen event hev
    exact fits_again h ht hmem hev hr fun hov => ho ((hs.same ht).ended.mp hov)

/-- The logs after it, read for the first time. -/
lemma wp_onward (h : History chain start) {l rest' : List Log}
    (hI : Inv s) (hB : Bounded s) (hs : At chain done (l ++ rest') block s)
    (hrelay : ∀ log ∈ l, ∀ event, log.event? = some event → event.rank = 0 →
      ¬s.Queued event.epoch .executeRelay) :
    (forM l (Indexer.handle route .outbox)).wp (protocol chain) .indexer
      (fun _ t => Inv t ∧ Bounded t ∧ ∃ done', At chain done' rest' block t) s := by
  refine Prog.wp_mono (fun _ t ht => ⟨ht.1, ht.2.1, ht.2.2.1⟩) (Prog.wp_forM (J := fun l' t =>
    Inv t ∧ Bounded t ∧ (∃ done', At chain done' (l' ++ rest') block t) ∧
      ∀ x ∈ l', ∀ event, x.event? = some event → event.rank = 0 →
        ¬t.Queued event.epoch .executeRelay) ?_ ⟨hI, hB, ⟨done, hs⟩, hrelay⟩)
  rintro log l' t ⟨hIt, hBt, ⟨done', ht⟩, hrel⟩
  rw [List.cons_append] at ht
  refine Prog.wp_mono (fun _ u hu => ?_) (wp_handle hIt fun event hev =>
    fits_next h ht hev (hrel log List.mem_cons_self event hev))
  obtain ⟨hIu, hn⟩ := hu
  exact ⟨hIu, hBt.stays hn.stays, ⟨_, ht.next hn⟩, fun x hx event hev hr hq =>
    hrel x (List.mem_cons_of_mem _ hx) event hev hr (hn.relay _ hq)⟩

/-- The answer for a chunk: some logs of the block at the cursor, and then the next ones. -/
lemma chunk_split {fromBlock : ℕ} (toBlock : ℕ) (h : History chain start)
    (hs : At chain done rest fromBlock s) :
    ∃ new rest', rest = new ++ rest' ∧
      (chain.filter fun log => log.Within fromBlock toBlock) =
        (done.filter fun log => log.Within fromBlock toBlock) ++ new ∧
      ∀ log ∈ rest', ∀ n, log.blockNumber = some n → toBlock ≤ n := by
  have hfront : rest.Pairwise fun a b => decide (b.Within fromBlock toBlock) = true →
      decide (a.Within fromBlock toBlock) = true := by
    have hsorted : rest.Pairwise fun a b => a.blockNumber.getD 0 ≤ b.blockNumber.getD 0 := by
      have hall := h.sorted
      rw [hs.split, List.pairwise_append] at hall
      exact hall.2.1
    refine hsorted.imp_of_mem fun {a b} ha _ hab hb => ?_
    obtain ⟨n, hn, -⟩ := h.mined a (by rw [hs.split]; exact List.mem_append_right _ ha)
    obtain ⟨m, hm, -, hle⟩ := of_decide_eq_true hb
    rw [hn, hm] at hab
    exact decide_eq_true ⟨n, hn, hs.ahead a ha n hn, hab.trans hle⟩
  refine ⟨_, _, (filter_append_filter_not hfront).symm, ?_, fun log hl n hn => ?_⟩
  · rw [hs.split, List.filter_append]
  · obtain ⟨hmem, hout⟩ := List.mem_filter.mp hl
    have hnot : ¬log.Within fromBlock toBlock := by simpa using hout
    by_contra hlt
    exact hnot ⟨n, hn, hs.ahead log hmem n hn, by omega⟩

/-- Moving the cursor. -/
lemma inv_updateBlock {target : ScanTarget} {a b : ℕ} {logs : List Log} (h : Inv s) :
    Inv (s.updateBlock target a b logs) :=
  h.mono (fun log => by simp) (fun e => by rw [World.claim?_updateBlock]) fun e k hq => by
    rwa [World.Queued, World.tasks_updateBlock] at hq

lemma bounded_updateBlock {target : ScanTarget} {a b : ℕ} {logs : List Log} (h : Bounded s) :
    Bounded (s.updateBlock target a b logs) := by
  refine ⟨?_, fun target' => ?_⟩
  · rw [World.lastBlock_updateBlock]
    split
    · exact Option.some_ne_none b
    · exact h.cursor
  · exact h.bound target'

/-- A chunk of the outbox, read with care. -/
lemma wp_chunk (h : History chain start) {fromBlock toBlock : ℕ} {logs : List Log} (hI : Inv s)
    (hB : Bounded s) (hs : At chain done rest fromBlock s)
    (hlogs : logs = chain.filter fun log => log.Within fromBlock toBlock)
    (hcare : ∀ log ∈ logs, ∀ ev, log.event? = some ev →
      (.handled .outbox log ∈ s.log → ev.rank ≠ 0 ∧ ¬Over s ev.epoch) ∧
        (ev.rank = 0 → ¬s.Queued ev.epoch .executeRelay)) :
    ((do
      forM logs (Indexer.handle route .outbox)
      TaskStore.updateBlock .outbox fromBlock toBlock logs) : M Unit).wp (protocol chain) .indexer
        (fun _ t => Inv t ∧ Placed chain t) s := by
  obtain ⟨new, rest', hrest, hsplit, hahead⟩ := chunk_split toBlock h hs
  rw [hsplit] at hlogs
  have hmove : ∀ t done', Inv t → Bounded t → At chain done' rest' fromBlock t →
      (TaskStore.updateBlock .outbox fromBlock toBlock logs).wp (protocol chain) .indexer
        (fun _ u => Inv u ∧ Placed chain u) t := by
    intro t done' hIt hBt ht
    refine ⟨fun log' hl => List.mem_cons_of_mem _ hl, trivial, inv_updateBlock hIt,
      bounded_updateBlock hBt, done', rest', toBlock, ht.split, fun log => ?_, ?_, hahead⟩
    · rw [World.log_updateBlock, List.mem_cons, ht.handled]
      exact or_iff_right nofun
    · rw [World.lastBlock_updateBlock, if_pos rfl]
  rw [Prog.wp_bind]
  nth_rewrite 1 [hlogs]
  rw [List.forM_append, Prog.wp_bind]
  refine Prog.wp_mono ?_ (wp_again h (fun log hl => ?_) hI hB hs)
  · rintro _ t ⟨hIt, hBt, ht, hrelay⟩
    rw [hrest] at ht
    refine Prog.wp_mono ?_ (wp_onward h hIt hBt ht fun log hl ev hev hr hq => ?_)
    · rintro _ u ⟨hIu, hBu, done', hu⟩
      exact hmove u done' hIu hBu hu
    · have hmem : log ∈ logs := by
        rw [hlogs]
        exact List.mem_append_right _ hl
      exact (hcare log hmem ev hev).2 hr (hrelay _ hq)
  · have hmem : log ∈ logs := by
      rw [hlogs]
      exact List.mem_append_left _ hl
    have hdone : log ∈ done := (List.mem_filter.mp hl).1
    exact ⟨hdone, fun ev hev => (hcare log hmem ev hev).1 ((hs.handled log).mpr hdone)⟩

/-- A chunk of the inbox. -/
lemma wp_chunk_inbox {fromBlock toBlock : ℕ} {logs : List Log} (hI : Inv s) (hB : Bounded s)
    (hs : At chain done rest block s) :
    ((do
      forM logs (Indexer.handle route .inbox)
      TaskStore.updateBlock .inbox fromBlock toBlock logs) : M Unit).wp (protocol chain) .indexer
        (fun _ t => Inv t ∧ Placed chain t) s := by
  rw [Prog.wp_bind]
  refine Prog.wp_mono ?_ (Prog.wp_forM (J := fun _ t => Inv t ∧ Bounded t ∧
    At chain done rest block t) ?_ ⟨hI, hB, hs⟩)
  · rintro _ t ⟨hIt, hBt, ht⟩
    refine ⟨fun log' hl => List.mem_cons_of_mem _ hl, trivial, inv_updateBlock hIt,
      bounded_updateBlock hBt, done, rest, block, ht.split, fun log => ?_, ?_, ht.ahead⟩
    · rw [World.log_updateBlock, List.mem_cons, ht.handled]
      exact or_iff_right nofun
    · rw [World.lastBlock_updateBlock, if_neg nofun, ht.cursor]
  · rintro log l t ⟨hIt, hBt, ht⟩
    refine Prog.wp_mono ?_ (wp_handle_inbox hIt)
    rintro _ u ⟨hIu, hst, hsa⟩
    exact ⟨hIu, hBt.stays hst, ht.stays hst hsa⟩

/-! ### The loop of the indexer -/

lemma placed_others (h : Placed chain s) (hc : Others s t) : Placed chain t := by
  obtain ⟨hB, done, rest, block, hs⟩ := h
  exact ⟨hB.stays hc.toStays, done, rest, block, hs.stays hc.toStays hc.same⟩

lemma scans (target : ScanTarget) : Indexer.Scans (protocol chain) .indexer target (Placed chain) where
  toPatient := patient_indexer fun _ _ h hc => placed_others h hc
  cursor s _ hJ hnone := by
    obtain ⟨hB, done, rest, block, hs⟩ := hJ
    cases target with
    | inbox => exact hB.cursor hnone
    | outbox =>
      rw [hs.cursor] at hnone
      cases hnone
  own _ _ h := h.cursor target
  heads _ _ h := h.heads _
  latest _ _ _ h := h.1
  bound _ _ hJ := hJ.1.bound target
  set c s hI hJ hc := by
    obtain ⟨hB, done, rest, block, hs⟩ := hJ
    have hsame : Same s (s.setCatchup target c) := fun log => by rw [World.log_setCatchup]
    refine ⟨fun log hl => (hsame log).mpr hl, trivial, hI.mono hsame (fun e => ?_) fun e k hq => ?_,
      ⟨?_, fun target' => ?_⟩, done, rest, block, hs.split, fun log => ?_, ?_, hs.ahead⟩
    · rw [World.claim?_setCatchup]
    · rwa [World.Queued, World.schedule_setCatchup] at hq
    · rw [World.lastBlock_setCatchup]
      exact hB.cursor
    · rw [World.catchup_setCatchup, World.heads_setCatchup]
      split
      · next h =>
        rw [h]
        exact hc
      · exact hB.bound target'
    · rw [World.log_setCatchup, hs.handled]
    · rw [World.lastBlock_setCatchup, hs.cursor]

lemma wp_run (h : History chain start) (n : ℕ) (hI : Inv s) (hJ : Placed chain s) :
    (Indexer.run route n).wp (protocol chain) .indexer (fun _ t => Inv t ∧ Placed chain t) s := by
  refine Indexer.wp_run (scans .inbox).toPatient (fun target t hIt hJt => ?_) (fun t hIt hJt => ?_)
    n hI hJ
  · refine Indexer.wp_scanChain (scans target) (fun fromBlock toBlock logs u _ hto hfrom ha hIu hJu => ?_)
      hIt hJt
    obtain ⟨hB, done, rest, block, hu⟩ := hJu
    cases target with
    | inbox => exact wp_chunk_inbox hIu hB hu
    | outbox =>
      obtain ⟨hfaithful, hcare⟩ := ha
      have hblock : block = fromBlock := Option.some.inj (hu.cursor.symm.trans hfrom)
      subst hblock
      have hmin : min toBlock (u.heads.get .outbox) = toBlock := min_eq_left hto
      refine wp_chunk h hIu hB hu ?_ hcare
      rw [← hmin]
      exact hfaithful
  · obtain ⟨hB, done, rest, block, ht⟩ := hJt
    have hst : Stays t (t.setOnSync true) := ⟨fun _ => rfl, fun _ => rfl, fun _ => le_rfl⟩
    have hsa : Same t (t.setOnSync true) := fun _ => Iff.rfl
    exact ⟨fun _ hl => hl, trivial, hIt.mono hsa (fun _ => Iff.rfl) fun _ _ hq => hq,
      hB.stays hst, done, rest, block, ht.stays hst hsa⟩

end

/-! ### The dispatcher -/

lemma others_of (hlog : Same s t) (hst : Stays s t) (hclaim : ∀ e, t.claim? e = s.claim? e)
    (hrelay : ∀ e, t.Queued e .executeRelay → s.Queued e .executeRelay) : Others s t :=
  ⟨hst, hlog, fun e hc hnone => absurd (hclaim e ▸ hnone) hc, hrelay⟩

lemma clerk : Dispatcher.Clerk (protocol chain) .dispatcher where
  note o s ho _ := by
    refine ⟨others_of (same_note ?_) ⟨fun _ => rfl, fun _ => rfl, fun _ => le_rfl⟩ (fun _ => rfl)
      fun _ hq => hq, trivial⟩
    rintro log rfl
    exact ho
  reschedule t n s _ :=
    ⟨others_of (same_note nofun) ⟨fun _ => rfl, fun _ => rfl, fun _ => le_rfl⟩ (fun _ => rfl)
      fun e hq => (World.queued_rescheduleTask _ _ _ _ _).mp hq, trivial⟩
  remove t s _ :=
    ⟨others_of (Same.refl s) ⟨fun _ => rfl, fun _ => rfl, fun _ => le_rfl⟩ (fun _ => rfl)
      fun e hq => ((World.queued_removeTask _ _ _ _).mp hq).1, trivial⟩

/-- The tasks still to be executed are of epochs that have been claimed, relays apart, and a
withdrawal is of one that is over. -/
def Ready (l : List Task) (s : World) : Prop :=
  ∀ task ∈ l, (task.kind.name ≠ .executeRelay → Begun s task.epoch) ∧
    (task.kind.name = .withdrawDeposit → Over s task.epoch)

/-- What the indexer does. -/
def Goes (s t : World) : Prop :=
  ∀ log, .handled .outbox log ∈ s.log → .handled .outbox log ∈ t.log

lemma Goes.begun (h : Goes s t) (hb : Begun s e) : Begun t e := by
  obtain ⟨log, claimer, root, hev, hm⟩ := hb
  exact ⟨log, claimer, root, hev, h log hm⟩

lemma Goes.ended (h : Goes s t) (ho : Over s e) : Over t e := by
  obtain ⟨log, hev, hm⟩ := ho
  exact ⟨log, hev, h log hm⟩

lemma Ready.goes {l : List Task} (h : Ready l s) (hg : Goes s t) : Ready l t := fun task ht =>
  ⟨fun hk => hg.begun ((h task ht).1 hk), fun hk => hg.ended ((h task ht).2 hk)⟩

lemma Ready.tail {task : Task} {l : List Task} (h : Ready (task :: l) s) : Ready l s :=
  fun b hb => h b (List.mem_cons_of_mem _ hb)

/-- The queue as a pass finds it. -/
lemma ready_load (hI : Inv s) : Ready s.schedule.tasks s := by
  refine fun task ht => ⟨fun hk => ?_, fun hk => ?_⟩
  · by_contra hb
    exact hk ((hI.fresh _ hb).2 _ (World.queued_of_mem ht))
  · exact hI.withdraws _ (hk ▸ World.queued_of_mem ht)

lemma reads_dispatcher {J : World → Prop} (h : ∀ s t, J s → Goes s t → J t) (e : ℕ) :
    Reads (protocol chain) .dispatcher J e where
  rely s t hJ ht _ := h s t hJ ht
  issue _ _ _ _ _ := trivial
  fault _ _ _ _ _ := trivial
  none _ _ _ _ := trivial
  many _ _ _ := trivial

lemma executor (route : Route) (task : Task) (l : List Task) :
    Dispatcher.Executor (protocol chain) .dispatcher (Ready (task :: l)) route task (fun _ => True)
      fun _ _ => True := by
  have hreads : Reads (protocol chain) .dispatcher (Ready (task :: l)) task.epoch :=
    reads_dispatcher (fun _ _ h hg => h.goes hg) _
  exact .free hreads.toPatient (fun _ _ => trivial) (fun _ => hreads) (fun _ => trivial)
    fun _ => trivial

lemma wp_processTask {route : Route} {now : ℕ} {task : Task} {l : List Task} (hI : Inv s)
    (hL : Ready (task :: l) s) :
    (Dispatcher.processTask route now task).wp (protocol chain) .dispatcher
      (fun _ t => Inv t ∧ Ready l t) s := by
  have hend : ∀ result t, Inv t → Ready (task :: l) t →
      Inv (Dispatcher.finish now task result t) ∧ Ready l (Dispatcher.finish now task result t) :=
    fun result t hIt ht => ⟨inv_finish hIt,
      ht.tail.goes fun log hl => (same_finish now task result log).mpr hl⟩
  have hIn : Inv (s.note (.executing task)) := inv_note hI (by simp)
  have hLn : Ready (task :: l) (s.note (.executing task)) :=
    hL.goes fun _ hl => List.mem_cons_of_mem _ hl
  refine Dispatcher.wp_processTask clerk trivial (Dispatcher.wp_body (executor route task l) hIn hLn
    (fun result t hIt ht _ => ⟨trivial, hend _ t hIt ht⟩)
    (fun hv claimed root n t hIt ht _ _ => ?_) fun hw t hIt ht => ?_)
  · obtain ⟨hrelay, hwithdraw⟩ : (Dispatcher.verdict claimed root).name ≠ .executeRelay ∧
        (Dispatcher.verdict claimed root).name ≠ .withdrawDeposit := by
      rcases Dispatcher.verdict_eq claimed root with h | h <;> simp [h, TaskKind.name]
    have hb : Begun t task.epoch := (ht task List.mem_cons_self).1 (by simp [hv, TaskKind.name])
    have hIa : Inv (t.addTask ⟨task.epoch, n, Dispatcher.verdict claimed root⟩) :=
      inv_addTask hIt (fun _ => hb) hwithdraw
    have hc := changed_addTask (s := t) ⟨task.epoch, n, Dispatcher.verdict claimed root⟩ hrelay
    exact ⟨others_of hc.same hc.stays (fun _ => rfl) hc.relay, trivial, trivial,
      hend _ _ hIa (ht.goes fun _ hl => List.mem_cons_of_mem _ hl)⟩
  · have ho : Over t task.epoch := (ht task List.mem_cons_self).2 (by simp [hw, TaskKind.name])
    refine ⟨⟨⟨fun _ => rfl, fun _ => rfl, fun _ => le_rfl⟩, Same.refl t, fun e hc hnone => ?_,
      fun _ hq => hq⟩, trivial, trivial, hend _ _ (inv_removeClaim hIt ho) ht⟩
    rw [World.claim?_removeClaim] at hnone
    by_cases he : e = task.epoch
    · rwa [he]
    · rw [if_neg he] at hnone
      exact absurd hnone hc

/-! ### The runs -/

/-- The files of a route that has just been initialised: the cursors are there, the outbox's at
`start`, and nothing else. -/
def Initialised (start : ℕ) (w : World) : Prop :=
  Empty w ∧ w.lastBlock .outbox = some start ∧ w.lastBlock .inbox ≠ none ∧
    ∀ target, w.catchup target = {}

/-- The route scans a chain and makes its passes, without a crash. -/
def system (route : Route) (chain : List Log) (start : ℕ) :
    System Role World Panic Query.Answer :=
  scanSystem route (pure ()) (Initialised start) (Faithful chain) fun _ _ => False

lemma inv_empty (h : Empty s) : Inv s where
  fresh e _ := ⟨h.claim? e, fun k hq => absurd hq (h.not_queued e k)⟩
  stored e hb := by
    obtain ⟨log, claimer, root, -, hm⟩ := hb
    rw [h.2.2] at hm
    cases hm
  withdraws e hq := absurd hq (h.not_queued e _)

/-- The indexer starts at the first block of the history. -/
lemma placed_initialised {start : ℕ} (h : History chain start) (hs : Initialised start s) :
    Placed chain s := by
  obtain ⟨⟨-, -, hlog⟩, hcursor, hinbox, hcatchup⟩ := hs
  have hB : Bounded s := by
    refine ⟨hinbox, fun target => ?_⟩
    rw [hcatchup]
    exact Nat.zero_le _
  refine ⟨hB, [], chain, start, rfl, fun log => ?_, hcursor, fun log hl n hn => ?_⟩
  · simp [hlog]
  · obtain ⟨m, hm, hle⟩ := h.mined log hl
    rw [hn] at hm
    cases hm
    exact hle

theorem covers (route : Route) {chain : List Log} {start : ℕ} (h : History chain start) :
    (protocol chain).Covers ((system route chain start).restrict Careful) where
  rely_refl i s := by
    cases i with
    | indexer => exact Others.refl s
    | dispatcher => exact fun _ hl => hl
  rely_trans i s t u hst htu := by
    cases i with
    | indexer => exact Others.trans hst htu
    | dispatcher => exact fun log hl => htu log (hst log hl)
  guar_rely := Role.guar_rely (fun _ _ h => h) fun _ _ h => h
  answer _ _ _ _ ha := ha
  env s t hst hI := by
    obtain ⟨hheads, heq⟩ := hst
    have hsame : Same s t := fun log => by rw [heq]
    have hclaim : ∀ e, t.claim? e = s.claim? e := fun e => by rw [heq]; rfl
    have hqueue : ∀ e k, t.Queued e k → s.Queued e k := fun e k hq => by
      rw [heq] at hq
      exact hq
    have hstays : Stays s t :=
      ⟨fun _ => by rw [heq]; rfl, fun _ => by rw [heq]; rfl, hheads⟩
    refine ⟨hI.mono hsame (fun e => by rw [hclaim]) hqueue, fun i => ?_⟩
    cases i with
    | indexer => exact others_of hsame hstays hclaim fun e => hqueue e _
    | dispatcher => exact fun log hl => (hsame log).mpr hl
  init _ hs := inv_empty hs.1
  boot i p s t hp hs hrel hI := by
    cases i with
    | indexer =>
      obtain ⟨n, rfl⟩ := hp
      have hinit := hs.resolve_right fun h => h.choose_spec.2
      have hplaced : Placed chain t := placed_others (placed_initialised h hinit) hrel
      rw [pure_bind]
      exact Prog.wp_mono (fun _ u hu => hu.1) (wp_run h n hI hplaced)
    | dispatcher =>
      obtain ⟨n, rfl⟩ := hp
      exact Dispatcher.wp_run (L := Ready)
        (reads_dispatcher (J := fun _ => True) (fun _ _ _ _ => trivial) 0).toPatient
        (fun _ => ready_load) (fun _ _ _ hL hg _ => hL.goes hg)
        (fun _ _ _ hL task ht => hL task (List.mem_of_mem_filter ht))
        (fun _ _ _ _ => wp_processTask) n hI
  durable _ _ := trivial
  restart _ _ _ h := h.elim

/-- **No handler is surprised, in careful runs.** On any chain of logs, however its heads grow and
its chunks fall and whatever the dispatcher does meanwhile, a route that reads its chunks with care
never stops in a handler over a duplicate or a missing claim. -/
theorem never_surprised (route : Route) {chain : List Log} {start : ℕ} (h : History chain start)
    {c : Config Role World Panic Query.Answer}
    (hc : ((system route chain start).restrict Careful).Reachable c) (e : ℕ) :
    c.thread .indexer ≠ .panic (.duplicateClaim e) ∧
      c.thread .indexer ≠ .panic (.claimNotFound e) ∧
      c.thread .indexer ≠ .panic (.cannotUpdateClaim e) := by
  have hfault : ∀ p, Surprise p → c.thread .indexer ≠ .panic p := by
    intro p hp he
    obtain ⟨s, -, hs⟩ := ((covers route h).reachable hc).fault .indexer p he
    exact hs hp
  exact ⟨hfault _ trivial, hfault _ trivial, hfault _ trivial⟩

/-! ### A block that is read twice -/

/-- A right claim in block 30, and its verification in block 155. -/
def sampleChain : List Log := [Sample.claimed 5 1 30, Sample.verificationStarted 5 155]

lemma history_sample : History sampleChain 10 := by
  have hclaimed : (Sample.claimed 5 1 30).event? = some (.claimed 5 9 1) := by decide
  have hstarted : (Sample.verificationStarted 5 155).event? = some (.verificationStarted 5) := by
    decide
  refine ⟨fun log hl => ?_, ?_, ?_, fun p log q ev hchain hev hr => ?_⟩
  · simp only [sampleChain, List.mem_cons, List.not_mem_nil, or_false] at hl
    rcases hl with rfl | rfl
    · exact ⟨30, rfl, by decide⟩
    · exact ⟨155, rfl, by decide⟩
  · decide
  · refine List.pairwise_pair.mpr fun ev ev' hev hev' _ => ?_
    rw [hclaimed] at hev
    rw [hstarted] at hev'
    cases hev
    cases hev'
    decide
  · rcases p with _ | ⟨c, p⟩
    · obtain ⟨rfl, -⟩ := List.cons.inj hchain
      rw [hclaimed] at hev
      cases hev
      exact absurd rfl hr
    · obtain ⟨rfl, htail⟩ := List.cons.inj hchain
      have hmem : log ∈ [Sample.verificationStarted 5 155] := by
        rw [htail]
        exact List.mem_append_right _ List.mem_cons_self
      rw [List.mem_singleton.mp hmem, hstarted] at hev
      cases hev
      exact ⟨_, List.mem_cons_self, 9, 1, hclaimed⟩

def sampleHeads : Heads := ⟨400, 400, 400⟩

/-- The nodes of the chain, with a clock. -/
def sampleNode (now : ℕ) : (q : Query) → q.Answer
  | .blockNumber _ => .ok (now / 10)
  | .logs .outbox f =>
    .ok (sampleChain.filter fun log => log.Within f.fromBlock (min f.toBlock 400))
  | .logs _ _ => .ok []
  | q => Sample.node now 0 q

lemma faithful_sampleNode {now : ℕ} (hnow : now ≤ 4000) (hs : s.heads = sampleHeads) (i : Role)
    (q : Query) : Faithful sampleChain i q (sampleNode now q) s := by
  cases i with
  | dispatcher => cases q <;> trivial
  | indexer =>
    cases q with
    | blockByNumber p n =>
      cases n with
      | latest =>
        show now / 10 ≤ s.heads.get p
        have h400 : s.heads.get p = 400 := by
          rw [hs]
          cases p <;> rfl
        omega
      | finalized => trivial
      | number n => trivial
    | logs p f =>
      cases p with
      | outbox =>
        show _ = sampleChain.filter _
        rw [hs]
        rfl
      | inbox => trivial
      | ethereum => trivial
    | _ => trivial

/-- The route on its cursors, with some scans and two passes to make. -/
def fromBlock10 (scans : ℕ) : Config Role World Panic Query.Answer where
  store := { schedule := { inboxLastBlock := some 30, outboxLastBlock := some 10 }
             heads := sampleHeads }
  thread
    | .indexer => Indexer.run Sample.route scans
    | .dispatcher => Dispatcher.run Sample.route 2

lemma initialised_fromBlock10 (scans : ℕ) : Initialised 10 (fromBlock10 scans).store :=
  ⟨⟨rfl, rfl, rfl⟩, rfl, nofun, fun target => by cases target <;> rfl⟩

lemma boot_fromBlock10 (scans : ℕ) (i : Role) :
    (system Sample.route sampleChain 10).boot i ((fromBlock10 scans).thread i) := by
  cases i with
  | indexer => exact ⟨scans, rfl⟩
  | dispatcher => exact ⟨2, rfl⟩

/-- The claim is found right and its verification started, so that no task of the epoch is left;
then the next scan begins with block 30 again. -/
def rescanned : Config Role World Panic Query.Answer :=
  (fromBlock10 2).play (Sample.times 23 .indexer (sampleNode 1500) ++
    (Sample.times 7 .dispatcher (sampleNode 1500) ++ Sample.times 23 .indexer (sampleNode 1600)))

/-- The `Claimed` log of block 30 is read twice, and the second time stops the route. -/
theorem claimed_twice : History sampleChain 10 ∧
    ∃ c, (system Sample.route sampleChain 10).Reachable c ∧
      c.thread .indexer = .panic (.duplicateClaim 5) := by
  refine ⟨history_sample, rescanned, ?_, Prog.eq_panic_of_panic? (by decide +kernel)⟩
  refine System.reachable_visits (p := fun w => w.heads = sampleHeads) Sample.mem_roles
    (fun x hx q w hw => ?_) (.init (initialised_fromBlock10 2) (boot_fromBlock10 2))
    (by decide +kernel) (by decide +kernel)
  have hheads : w.heads = sampleHeads := of_decide_eq_true hw
  have hnode : ∃ i now, now ≤ 4000 ∧ x = (i, sampleNode now) := by
    rcases List.mem_append.mp hx with hx | hx
    · exact ⟨.indexer, 1500, by decide, List.eq_of_mem_replicate hx⟩
    rcases List.mem_append.mp hx with hx | hx
    · exact ⟨.dispatcher, 1500, by decide, List.eq_of_mem_replicate hx⟩
    · exact ⟨.indexer, 1600, by decide, List.eq_of_mem_replicate hx⟩
  obtain ⟨i, now, hnow, rfl⟩ := hnode
  exact faithful_sampleNode hnow hheads i q

/-! ### A careful run -/

/-- What `Careful` asks for, as a check of one answer. -/
def check : Role → (q : Query) → q.Answer → World → Bool
  | .indexer, .logs .outbox _, .ok logs, w => logs.all fun log => log.event?.all fun ev =>
    decide ((.handled .outbox log ∈ w.log → ev.rank ≠ 0 ∧ ¬Over w ev.epoch) ∧
      (ev.rank = 0 → ¬w.Queued ev.epoch .executeRelay))
  | _, _, _, _ => true

lemma careful_check {i : Role} {q : Query} {a : q.Answer} {w : World}
    (h : check i q a w = true) : Careful i q a w := by
  cases i with
  | dispatcher => cases q <;> trivial
  | indexer =>
    cases q with
    | logs p f =>
      cases p with
      | outbox =>
        cases a with
        | error err => trivial
        | ok logs =>
          intro log hl ev hev
          have hlog : log.event?.all (fun ev => decide ((.handled .outbox log ∈ w.log →
              ev.rank ≠ 0 ∧ ¬Over w ev.epoch) ∧ (ev.rank = 0 → ¬w.Queued ev.epoch .executeRelay))) =
              true := List.all_eq_true.mp h log hl
          rw [hev] at hlog
          exact of_decide_eq_true hlog
      | inbox | ethereum => trivial
    | _ => trivial

/-- The claim of block 30 is handled and found right, and the start of its verification is handled
twice: the third scan begins with its block. -/
def rereadSchedule : List (Role × ((q : Query) → q.Answer)) :=
  Sample.times 22 .indexer (sampleNode 1600) ++ Sample.times 4 .dispatcher (sampleNode 1600) ++
    Sample.times 25 .indexer (sampleNode 2750) ++ Sample.times 25 .indexer (sampleNode 2760)

def reread : Config Role World Panic Query.Answer := (fromBlock10 3).play rereadSchedule

lemma reachable_reread :
    ((system Sample.route sampleChain 10).restrict Careful).Reachable reread := by
  have hboot : ((system Sample.route sampleChain 10).restrict Careful).Reachable (fromBlock10 3) :=
    .init (initialised_fromBlock10 3) (boot_fromBlock10 3)
  refine System.reachable_checks (fun i q a w => check i q a w && decide (w.heads = sampleHeads))
    Sample.mem_roles hboot (fun x hx q w hw => ?_) (by decide +kernel) (by decide +kernel)
  obtain ⟨hcheck, hheads⟩ := Bool.and_eq_true_iff.mp hw
  have hnode : ∃ now, now ≤ 4000 ∧ x.2 = sampleNode now := by
    simp only [rereadSchedule, List.mem_append] at hx
    rcases hx with ((hx | hx) | hx) | hx
    · exact ⟨1600, by decide, by rw [List.eq_of_mem_replicate hx]⟩
    · exact ⟨1600, by decide, by rw [List.eq_of_mem_replicate hx]⟩
    · exact ⟨2750, by decide, by rw [List.eq_of_mem_replicate hx]⟩
    · exact ⟨2760, by decide, by rw [List.eq_of_mem_replicate hx]⟩
  obtain ⟨now, hnow, hx⟩ := hnode
  refine ⟨?_, careful_check hcheck⟩
  rw [hx]
  exact faithful_sampleNode hnow (of_decide_eq_true hheads) x.1 q

theorem never_surprised_sample :
    reread.store.log.count (.handled .outbox (Sample.verificationStarted 5 155)) = 2 ∧
    reread.thread .indexer ≠ .panic (.duplicateClaim 5) ∧
    reread.thread .indexer ≠ .panic (.claimNotFound 5) ∧
    reread.thread .indexer ≠ .panic (.cannotUpdateClaim 5) :=
  ⟨by decide +kernel, never_surprised Sample.route history_sample reachable_reread 5⟩

end Rescan

end VeaValidator
