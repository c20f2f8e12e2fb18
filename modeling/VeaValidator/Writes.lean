import VeaValidator.Handlers

/-!
What the handlers write.

Every write of a handler is one of a few operations on the two files, and it is for the epoch of
the log. What each of these operations keeps, every handler keeps.
-/

namespace VeaValidator

open Coop

/-- What the handler of an event makes of a stored claim. -/
inductive Event.Edit : Event → (ClaimData → ClaimData) → Prop
  | start (e ts n : ℕ) : Edit (.verificationStarted e) (ClaimData.startVerification ts n)
  | challenge (e : ℕ) (challenger : Address) :
      Edit (.challenged e challenger) (ClaimData.challengeBy challenger)
  | settle (e : ℕ) (honest : String) (h : honest = "Claimer" ∨ honest = "Challenger") :
      Edit (.verified e) (ClaimData.settle honest)

/-- The task the handler of an event queues. -/
def Event.taskKind : Event → TaskKind
  | .claimed _ _ _ => .validateClaim
  | .verificationStarted _ => .verifySnapshot
  | .challenged _ _ => .sendSnapshot
  | .verified _ => .withdrawDeposit

/-- One write of the handler of an event. -/
inductive Event.Write : Event → World → World → Prop
  | store {s : World} (e : ℕ) (claimer : Address) (root : Word) (ts : ℕ)
      (hnew : ∀ task ∈ s.schedule.tasks, task.epoch ≠ e) (hnone : s.claim? e = none) :
      Write (.claimed e claimer root) s (s.storeClaim (ClaimData.fresh e root claimer ts))
  | update {event : Event} {s : World} {f : ClaimData → ClaimData} (hf : event.Edit f) :
      Write event s (s.updateClaim event.epoch f)
  | clear (event : Event) {s : World} (ks : List KindName) :
      Write event s (s.invalidateTasks event.epoch ks)
  | queue (event : Event) {s : World} (n : ℕ)
      (hsettled : ∀ e d, event = .verified e → s.claim? e = some d →
        d.honest = "Claimer" ∨ d.honest = "Challenger") :
      Write event s (s.addTask ⟨event.epoch, n, event.taskKind⟩)

/-- One write of the handler of a log. -/
inductive Log.Write (log : Log) : ScanTarget → World → World → Prop
  | act {s t : World} (event : Event) (hev : log.event? = some event) (h : event.Write s t) :
      Write log .outbox s t
  | relay {s : World} (task : Task) (hsig : log.topics.head? = some sigSnapshotSent)
      (hepoch : Indexer.snapshotEpoch log = some task.epoch)
      (hkind : task.kind.name = .executeRelay) : Write log .inbox s (s.addTask task)
  | save {s : World} (n : ℕ) : Write log .inbox s (s.setLastSavedCount n)

namespace Event.Edit

variable {event : Event} {f : ClaimData → ClaimData}

lemma epoch (h : event.Edit f) (c : ClaimData) : (f c).epoch = c.epoch := by
  cases h <;> rfl

lemma stateRoot (h : event.Edit f) (c : ClaimData) : (f c).stateRoot = c.stateRoot := by
  cases h <;> rfl

/-- The honest party stays, or is decided. -/
lemma honest (h : event.Edit f) (c : ClaimData) : (f c).honest = c.honest ∨
    (f c).honest = "Claimer" ∨ (f c).honest = "Challenger" := by
  cases h with
  | start e ts n => exact .inl rfl
  | challenge e challenger => exact .inl rfl
  | settle e honest h => exact .inr h

end Event.Edit

/-! ### Programs with these writes only -/

/-- The rules of a program whose writes are in `W`. -/
abbrev writes (W : World → World → Prop) : Protocol Unit World Panic Query.Answer :=
  .loose W (fun q _ => q.Passive) fun p _ => ∀ target, p ≠ .lastBlockNotSet target

abbrev Confined {α : Type} (W : World → World → Prop) (p : M α) : Prop :=
  Prog.Keeps (writes W) () (fun _ => True) p

section
variable {W : World → World → Prop} {α : Type} {p : M α} {route : Route}

lemma patient_writes : Patient (writes W) () fun _ => True where
  rely _ _ _ _ _ := trivial
  issue _ _ hq _ _ := hq
  fault p _ hp _ _ target := by
    rintro rfl
    exact hp

/-- **What each write keeps, the program keeps**, whatever the others do to it meanwhile. -/
lemma Confined.keeps (h : Confined W p) {ι : Type} {P : Protocol ι World Panic Query.Answer}
    {i : ι} {J : World → Prop} (hp : Patient P i J)
    (hW : ∀ s t, P.inv s → J s → W s t → P.guar i s t ∧ P.durable t ∧ P.inv t ∧ J t)
    (hfault : ∀ e s, (∀ target, e ≠ .lastBlockNotSet target) → P.inv s → J s → P.fault i e s) :
    Prog.Keeps P i J p :=
  Prog.Keeps.of_loose h hp.rely hW (fun q s hI hJ hq => hp.issue q s hq hI hJ)
    fun e s hI hJ he => hfault e s he hI hJ

lemma confined_modify {f : World → World} (h : ∀ w, W w (f w)) : Confined W (Prog.modify f) :=
  fun w _ _ => ⟨h w, trivial, trivial, trivial⟩

lemma confined_update {e : ℕ} {f : ClaimData → ClaimData} (h : ∀ w, W w (w.updateClaim e f)) :
    Confined W (ClaimStore.update e f) := fun _ _ _ =>
  wp_update.mpr ⟨fun _ => ⟨trivial, fun _ => nofun⟩, fun _ _ => ⟨h _, trivial, trivial, trivial⟩⟩

lemma confined_missingClaim (e ts : ℕ) : Confined W (Indexer.missingClaim route e ts) :=
  fun _ _ _ => Indexer.wp_missingClaim (fun _ => ⟨trivial, trivial⟩) fun _ => ⟨trivial, fun _ => nofun⟩

lemma confined_queue (event : Event) (n : ℕ) (h : ∀ e, event ≠ .verified e) :
    Confined event.Write (TaskStore.addTask ⟨event.epoch, n, event.taskKind⟩) :=
  confined_modify fun _ => .queue event n fun e _ he => absurd he (h e)

/-- The last two writes of a handler that has changed the claim, but for the settlement. -/
lemma confined_requeue {event : Event} {f : ClaimData → ClaimData} {ks : List KindName} {n : ℕ}
    (hf : event.Edit f) (h : ∀ e, event ≠ .verified e) :
    Confined event.Write (do
      ClaimStore.update event.epoch f
      TaskStore.invalidateTasks event.epoch ks
      TaskStore.addTask ⟨event.epoch, n, event.taskKind⟩) :=
  Prog.Keeps.bind (confined_update fun _ => .update hf) fun _ =>
    Prog.Keeps.bind (confined_modify fun _ => .clear event ks) fun _ => confined_queue event n h

/-- **What the handler of an event writes.** -/
lemma confined_act (log : Log) (event : Event) :
    Confined event.Write (Indexer.act route log event) := by
  intro w _ _
  cases event with
  | claimed e claimer root =>
    refine Indexer.wp_claimed patient_writes trivial trivial (fun _ _ _ _ => ⟨trivial, trivial⟩)
      fun ts t _ _ _ hnew => ?_
    rw [Prog.wp_bind, wp_store]
    refine ⟨fun _ => ⟨trivial, fun _ => nofun⟩, fun hnone => ?_⟩
    have hstore : Event.Write (.claimed e claimer root) t
        (t.storeClaim (ClaimData.fresh e root claimer (u32 ts))) := .store e claimer root _ hnew hnone
    exact ⟨hstore, trivial, confined_queue (.claimed e claimer root) ts nofun _ trivial
      trivial⟩
  | verificationStarted e =>
    refine Indexer.wp_verificationStarted patient_writes trivial trivial
      (fun _ ts t _ _ _ => confined_missingClaim e ts t trivial trivial) fun _ ts n t _ _ _ _ => ?_
    exact confined_requeue (.start e (u32 ts) (u32 n)) nofun t trivial trivial
  | challenged e challenger =>
    refine Indexer.wp_challenged patient_writes patient_writes trivial trivial
      (fun _ ts t _ _ _ => confined_missingClaim e ts t trivial trivial) fun _ => ?_
    have hupdate : Confined (Event.Write (.challenged e challenger))
        (ClaimStore.update e (ClaimData.challengeBy challenger)) :=
      confined_update fun _ => .update (.challenge e challenger)
    refine Prog.wp_mono (fun _ t _ => ⟨trivial, trivial, fun ts u _ _ _ => ?_⟩)
      (hupdate.bind (fun _ => confined_modify fun _ => .clear (.challenged e challenger) _) w
        trivial trivial)
    exact confined_queue (.challenged e challenger) ts nofun u trivial trivial
  | verified e =>
    refine Indexer.wp_verified (D := fun _ _ => True) patient_writes trivial trivial
      (fun _ _ _ _ => nofun) (fun _ _ _ _ _ => trivial) (fun _ _ _ _ _ _ _ => trivial)
      (fun ts t _ _ _ _ => confined_missingClaim e ts t trivial trivial)
      fun ts d root t _ _ _ _ _ => ?_
    have hhonest : (if d.stateRoot = root then "Claimer" else "Challenger") = "Claimer" ∨
        (if d.stateRoot = root then "Claimer" else "Challenger") = "Challenger" := by
      split
      · exact .inl rfl
      · exact .inr rfl
    rw [Prog.wp_bind, wp_update]
    refine ⟨fun _ => ⟨trivial, fun _ => nofun⟩, fun d _ => ⟨.update (.settle e _ hhonest), trivial,
      .clear (.verified e) _, trivial, .queue (.verified e) ts ?_, trivial, trivial, trivial⟩⟩
    -- the claim has just been settled
    rintro e' d' he' hd'
    obtain rfl : e = e' := Event.verified.inj he'
    rw [World.claim?_invalidateTasks, World.claim?_updateClaim _ _ _ (ClaimData.settle _)
      fun _ => rfl, if_pos rfl] at hd'
    obtain ⟨d'', -, rfl⟩ := Option.map_eq_some_iff.mp hd'
    exact hhonest

/-- **What the handler of a log writes.** -/
lemma confined_dispatch (target : ScanTarget) (log : Log) :
    Confined (log.Write target) (Indexer.dispatch route target log) := by
  intro w _ _
  cases target with
  | inbox =>
    refine Indexer.wp_dispatchInboxEvent (fun _ => ⟨trivial, trivial⟩) (fun hsig => ?_) fun _ => ?_
    · refine Indexer.wp_handleSnapshotSent patient_writes trivial trivial
        (fun _ _ _ _ => ⟨trivial, trivial⟩) fun e task t he _ _ hte hkind _ _ => ?_
      subst hte
      exact ⟨.relay task hsig he hkind, trivial, trivial, trivial⟩
    · exact Indexer.wp_handleSnapshotSaved patient_writes trivial trivial ⟨trivial, trivial⟩
        fun n => ⟨.save n, trivial, trivial, trivial⟩
  | outbox =>
    refine Indexer.wp_dispatchOutboxEvent patient_writes trivial trivial
      (fun _ => ⟨trivial, trivial⟩) fun event hev => ?_
    exact (confined_act log event).keeps patient_writes
      (fun _ _ _ _ hw => ⟨.act event hev hw, trivial, trivial, trivial⟩)
      (fun _ _ he _ _ => he) w trivial trivial

end

end VeaValidator
