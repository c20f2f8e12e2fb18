import VeaValidator.Main

/-!
Which transactions a route sends, and when.

Nothing is sent before the route has synced since it was last started, whatever its files say. From
then on the watcher saves snapshots and makes claims, if it is to make any, and the dispatcher sends
what the tasks of the queue are for; the indexer sends nothing.
-/

namespace VeaValidator

open Coop

namespace Gate

/-- The value of a call that takes a deposit: none where the deposit is paid in WETH. -/
def Paid (route : Route) (value : Option ℕ) : Prop := value = none ↔ route.wethAddress ≠ none

/-- What the body of a task may send. -/
def Sent (route : Route) (task : Task) : Tx → Prop
  | .saveSnapshot => task.kind = .saveSnapshot
  | .claim e root value => e = task.epoch ∧ task.kind.name = .claim ∧ root ≠ 0 ∧ Paid route value
  | .challenge e _ value => e = task.epoch ∧ task.kind = .challenge ∧ Paid route value
  | .sendSnapshot e gasLimit _ => e = task.epoch ∧ task.kind = .sendSnapshot ∧
      (route.name = "ARB_TO_ETH" ∧ gasLimit = none ∨
        route.name = "ARB_TO_GNOSIS" ∧ gasLimit = some 500000)
  | .startVerification e c =>
    e = task.epoch ∧ task.kind = .startVerification ∧ c.challenger = 0
  | .verifySnapshot e c => e = task.epoch ∧ task.kind = .verifySnapshot ∧ c.challenger = 0
  | .withdrawClaimDeposit e c =>
    e = task.epoch ∧ task.kind = .withdrawDeposit ∧ c.honest = .claimer
  | .withdrawChallengeDeposit e c =>
    e = task.epoch ∧ task.kind = .withdrawDeposit ∧ c.honest = .challenger
  | .executeTransaction _ relay => task.kind = .executeRelay relay

/-! ### What the bodies send -/

section
variable {ι : Type} {P : Protocol ι World Panic Query.Answer} {i : ι} {J : World → Prop}
  {route : Route} {e : ℕ} {s : World}

lemma paid_challengeValue (deposit : ℕ) : Paid route (Tasks.challengeValue route deposit) := by
  unfold Paid Tasks.challengeValue
  cases route.wethAddress with
  | none => simp
  | some _ => simp

lemma wp_claimValue (h : Patient P i J) (hI : P.inv s) (hJ : J s) :
    (Tasks.claimValue route).run.wp P i
      (fun r t => (∀ v, r = .ok v → Paid route v) ∧ P.inv t ∧ J t) s := by
  unfold Tasks.claimValue
  cases hw : route.wethAddress with
  | some _ =>
    refine ⟨?_, hI, hJ⟩
    rintro v ⟨⟩
    simp [Paid, hw]
  | none =>
    rw [Prog.wp_run_bind, wp_run_rpc]
    refine ⟨hI, h.issue _ s trivial hI hJ, fun t ht hIt a _ => ?_⟩
    have hJt := h.rely s t hJ ht hIt
    rcases a with err | deposit
    · exact ⟨nofun, hIt, hJt⟩
    · refine ⟨?_, hIt, hJt⟩
      rintro v ⟨⟩
      simp [Paid, hw]

lemma keeps_claim (h : Patient P i J) {now : ℕ}
    (hsend : ∀ root v s, root ≠ 0 → Paid route v → P.inv s → J s →
      P.issue i (.send (.claim e root v)) s) : Prog.Keeps P i J (Tasks.claim route e now).run := by
  refine Prog.Keeps.run_bind (h.rpc trivial) fun epochPeriod => ?_
  refine Prog.Keeps.run_bind (h.keeps (quiet_isEpochFinalized _ _ _)) fun finalized => ?_
  refine Prog.Keeps.run_ite (fun _ => Prog.Keeps.run_throw) fun _ => ?_
  refine Prog.Keeps.run_bind (h.rpc trivial) fun stateRoot => ?_
  refine Prog.Keeps.run_ite (fun _ => Prog.Keeps.run_pure) fun hroot => ?_
  refine Prog.Keeps.run_bind (h.rpc trivial) fun claimHash => ?_
  refine Prog.Keeps.run_ite (fun _ => Prog.Keeps.run_pure) fun _ => ?_
  refine Prog.Keeps.run_bind (h.rpc trivial) fun currentStateRoot => ?_
  refine Prog.Keeps.run_ite (fun _ => Prog.Keeps.run_pure) fun _ => ?_
  refine Prog.Keeps.run_bind (Prog.Keeps.run_lift Prog.Keeps.gets) fun recent => ?_
  refine Prog.Keeps.run_ite (fun _ => Prog.Keeps.run_pure) fun _ => ?_
  intro s hI hJ
  rw [Prog.wp_run_bind]
  refine Prog.wp_mono ?_ (wp_claimValue h hI hJ)
  rintro (err | value) t ⟨hpaid, hIt, hJt⟩
  · exact ⟨hIt, hJt⟩
  have hvalue := hpaid value rfl
  refine Prog.Keeps.run_bind (Prog.Keeps.run_lift (Tasks.keeps_sendTx h fun u =>
    hsend stateRoot value u hroot hvalue)) (fun r => ?_) t hIt hJt
  cases r with
  | ok _ => exact Prog.Keeps.run_pure
  | error err =>
    refine Prog.Keeps.run_bind (h.rpc trivial) fun claimHash => ?_
    exact Prog.Keeps.run_ite (fun _ => Prog.Keeps.run_pure) fun _ => Prog.Keeps.run_throw

lemma keeps_challenge (h : Reads P i J e)
    (hsend : ∀ c v s, Paid route v → P.inv s → J s → P.issue i (.send (.challenge e c v)) s) :
    Prog.Keeps P i J (Tasks.challenge route e).run := by
  have hemitted : ∀ sig, Prog.Keeps P i J
      (ExceptT.lift (Tasks.wasEventEmitted .outbox route.outboxAddress sig e) : Fallible Bool).run :=
    fun sig => Prog.Keeps.run_lift (h.keeps (Tasks.quiet_wasEventEmitted _ _ _ _))
  have hclaim : Prog.Keeps P i J (ExceptT.lift (ClaimStore.getClaim e) : Fallible Claim).run :=
    Prog.Keeps.run_lift fun s hI hJ => h.getClaim hI hJ fun _ _ => ⟨hI, hJ⟩
  refine Prog.Keeps.run_bind (h.rpc trivial) fun epochPeriod => ?_
  refine Prog.Keeps.run_bind (h.keeps (quiet_isEpochFinalized _ _ _)) fun finalized => ?_
  refine Prog.Keeps.run_ite (fun _ => Prog.Keeps.run_throw) fun _ => ?_
  refine Prog.Keeps.run_bind hclaim fun claim => ?_
  refine Prog.Keeps.run_bind (h.rpc trivial) fun deposit => ?_
  refine Prog.Keeps.run_bind (h.keeps (Tasks.quiet_balance route)) fun balance => ?_
  refine Prog.Keeps.run_ite (fun _ => Prog.Keeps.run_throw) fun _ => ?_
  refine Prog.Keeps.run_bind (Prog.Keeps.run_lift (Tasks.keeps_sendTx h.toPatient fun s =>
    hsend claim _ s (paid_challengeValue deposit))) fun r => ?_
  cases r with
  | ok _ => exact Prog.Keeps.run_pure
  | error err =>
    refine Prog.Keeps.run_bind (hemitted _) fun challenged => ?_
    refine Prog.Keeps.run_ite (fun _ => Prog.Keeps.run_pure) fun _ => ?_
    refine Prog.Keeps.run_bind (hemitted _) fun started => ?_
    exact Prog.Keeps.run_ite (fun _ => Prog.Keeps.run_throw) fun _ => Prog.Keeps.run_throw

lemma keeps_sendSnapshot (h : Reads P i J e)
    (hroute : ∀ s, P.inv s → J s → P.fault i (.unknownRoute route.name) s)
    (hsend : ∀ g c s, (route.name = "ARB_TO_ETH" ∧ g = none ∨
      route.name = "ARB_TO_GNOSIS" ∧ g = some 500000) → P.inv s → J s →
      P.issue i (.send (.sendSnapshot e g c)) s) :
    Prog.Keeps P i J (Tasks.sendSnapshot route e).run := by
  have hclaim : Prog.Keeps P i J (ExceptT.lift (ClaimStore.getClaim e) : Fallible Claim).run :=
    Prog.Keeps.run_lift fun s hI hJ => h.getClaim hI hJ fun _ _ => ⟨hI, hJ⟩
  refine Prog.Keeps.run_bind hclaim fun claim => ?_
  refine Prog.Keeps.run_ite (fun heth => ?_) fun _ => ?_
  · exact Tasks.keeps_sendTx h.toPatient fun s => hsend none claim s (.inl ⟨heth, rfl⟩)
  refine Prog.Keeps.run_ite (fun hgnosis => ?_) fun _ => ?_
  · exact Tasks.keeps_sendTx h.toPatient fun s => hsend (some 500000) claim s (.inr ⟨hgnosis, rfl⟩)
  · exact Prog.Keeps.run_lift (Prog.Keeps.panic hroute)

lemma keeps_withdrawDeposit (h : Reads P i J e)
    (hhonest : ∀ s, P.inv s → J s → P.fault i (.honestNotDetermined e) s)
    (hremove : Prog.Keeps P i J (ClaimStore.remove e))
    (hclaimer : ∀ c s, c.honest = .claimer → P.inv s → J s →
      P.issue i (.send (.withdrawClaimDeposit e c)) s)
    (hchallenger : ∀ c s, c.honest = .challenger → P.inv s → J s →
      P.issue i (.send (.withdrawChallengeDeposit e c)) s) :
    Prog.Keeps P i J (Tasks.withdrawDeposit e).run := by
  have hclaim : Prog.Keeps P i J (ExceptT.lift (ClaimStore.getClaim e) : Fallible Claim).run :=
    Prog.Keeps.run_lift fun s hI hJ => h.getClaim hI hJ fun _ _ => ⟨hI, hJ⟩
  refine Prog.Keeps.run_bind (h.rpc trivial) fun claimHash => ?_
  refine Prog.Keeps.run_ite (fun _ => Prog.Keeps.run_lift hremove) fun _ => ?_
  refine Prog.Keeps.run_bind hclaim fun claim => ?_
  have hsend : ∀ {tx} {g : Except String Unit → Fallible Unit},
      (∀ s, P.inv s → J s → P.issue i (.send tx) s) → (∀ r, Prog.Keeps P i J (g r).run) →
      Prog.Keeps P i J (ExceptT.lift (Tasks.sendTx tx).run >>= g).run := fun hsent =>
    Prog.Keeps.run_bind (Prog.Keeps.run_lift (Tasks.keeps_sendTx h.toPatient hsent))
  have hretry : ∀ err, Prog.Keeps P i J (do
      let claimHash ← rpc (.claimHashes e)
      if claimHash = 0 then
        ExceptT.lift (ClaimStore.remove e)
      else
        throw err : Fallible Unit).run := fun err =>
    Prog.Keeps.run_bind (h.rpc trivial) fun claimHash =>
      Prog.Keeps.run_ite (fun _ => Prog.Keeps.run_lift hremove) fun _ => Prog.Keeps.run_throw
  intro s hI hJ
  rw [Prog.wp_run_lift_bind]
  unfold Tasks.withdrawTx
  cases hp : claim.honest with
  | none => exact ⟨hI, hhonest s hI hJ⟩
  | claimer =>
    refine hsend (fun u => hclaimer claim u hp) ?_ s hI hJ
    rintro (err | _)
    · exact hretry err
    · exact Prog.Keeps.run_lift hremove
  | challenger =>
    refine hsend (fun u => hchallenger claim u hp) ?_ s hI hJ
    rintro (err | _)
    · exact hretry err
    · exact Prog.Keeps.run_lift hremove

/-- **What a body sends.** Whatever its kind is, a body sends what its task is for. -/
lemma keeps_body {task : Task} {now : ℕ} (h : Reads P i J task.epoch)
    (hroute : ∀ s, P.inv s → J s → P.fault i (.unknownRoute route.name) s)
    (hhonest : ∀ s, P.inv s → J s → P.fault i (.honestNotDetermined task.epoch) s)
    (hsend : ∀ tx s, Sent route task tx → P.inv s → J s → P.issue i (.send tx) s)
    (hverdict : ∀ n kind, kind = .startVerification ∨ kind = .challenge →
      Prog.Keeps P i J (TaskStore.addTask ⟨task.epoch, n, kind⟩))
    (hremove : Prog.Keeps P i J (ClaimStore.remove task.epoch)) :
    Prog.Keeps P i J (Dispatcher.body route task now).run := by
  unfold Dispatcher.body
  cases hk : task.kind with
  | saveSnapshot => exact Tasks.keeps_saveSnapshot h.toPatient fun s => hsend _ s hk
  | claim root =>
    exact keeps_claim h.toPatient fun root v s hroot hv =>
      hsend _ s ⟨rfl, by rw [hk]; rfl, hroot, hv⟩
  | validateClaim =>
    intro s hI hJ
    refine Tasks.wp_validateClaim (D := fun _ _ => True) h hI hJ (fun _ t hIt hJt => ⟨hIt, hJt⟩)
      (fun _ _ _ _ _ => trivial) (fun _ _ _ _ _ _ _ => trivial) (fun _ t hIt hJt _ _ => ?_)
      fun _ _ t _ hIt hJt _ _ => ?_
    · exact hverdict _ _ (.inl rfl) t hIt hJt
    · exact hverdict _ _ (.inr rfl) t hIt hJt
  | challenge => exact keeps_challenge h fun c v s hv => hsend _ s ⟨rfl, hk, hv⟩
  | sendSnapshot => exact keeps_sendSnapshot h hroute fun g c s hg => hsend _ s ⟨rfl, hk, hg⟩
  | startVerification =>
    exact Tasks.keeps_sendUnlessChallenged h fun s d hI hJ _ hc =>
      hsend (.startVerification _ _) s ⟨rfl, hk, hc⟩ hI hJ
  | verifySnapshot =>
    exact Tasks.keeps_sendUnlessChallenged h fun s d hI hJ _ hc =>
      hsend (.verifySnapshot _ _) s ⟨rfl, hk, hc⟩ hI hJ
  | executeRelay relay => exact Tasks.keeps_executeRelay h.toPatient fun _ s => hsend _ s hk
  | withdrawDeposit =>
    exact keeps_withdrawDeposit h hhonest hremove (fun c s hc => hsend _ s ⟨rfl, hk, hc⟩)
      fun c s hc => hsend _ s ⟨rfl, hk, hc⟩

end

/-! ### The protocol -/

/-- A kind of task that is queued: the two others are the watcher's own. -/
def Queues (k : KindName) : Prop := k ≠ .saveSnapshot ∧ k ≠ .claim

/-- The queue holds no task of the watcher. -/
def Scheduled (w : World) : Prop := ∀ e k, w.Queued e k → Queues k

/-- The route stays on sync, and its log grows. -/
structure Held (s t : World) : Prop where
  onSync : s.schedule.onSync = true → t.schedule.onSync = true
  log : s.log ⊆ t.log

/-- What the watcher may send. -/
def Watched (route : Route) (makeClaims : Bool) (tx : Tx) : Prop :=
  tx = .saveSnapshot ∨
    makeClaims = true ∧ ∃ e root v, tx = .claim e root v ∧ root ≠ 0 ∧ Paid route v

/-- What the dispatcher may send, with these lines in the log. -/
def Dispatched (route : Route) (tx : Tx) (w : World) : Prop :=
  ∃ task, .executing task ∈ w.log ∧ Queues task.kind.name ∧ Sent route task tx

/-- What a program of the route may send; `none` is the part of it before the `select!`. -/
def Allowed (route : Route) (makeClaims : Bool) : Option Thread → Tx → World → Prop
  | some (.inl .dispatcher), tx, w => w.schedule.onSync = true ∧ Dispatched route tx w
  | some (.inr ()), tx, w => w.schedule.onSync = true ∧ Watched route makeClaims tx
  | _, _, _ => False

@[simps]
def protocol (route : Route) (makeClaims : Bool) :
    Protocol (Option Thread) World Panic Query.Answer where
  inv := Scheduled
  durable := Scheduled
  rely
    | some (.inl .dispatcher), s, t => Held s t
    | some (.inr ()), s, t => Held s t
    | _, _, _ => True
  guar
    | none, _, _ => True
    | some _, s, t => Held s t
  answer _ _ _ _ := True
  issue i q w := ∀ tx, q = .send tx → Allowed route makeClaims i tx w
  fault _ _ _ := True

variable {route : Route} {makeClaims : Bool} {i : Option Thread} {s t u : World}

lemma Held.refl (s : World) : Held s s := ⟨id, List.Subset.refl _⟩

lemma Held.trans (h : Held s t) (h' : Held t u) : Held s u :=
  ⟨fun hs => h'.onSync (h.onSync hs), List.Subset.trans h.log h'.log⟩

lemma held_note (s : World) (o : Obs) : Held s (s.note o) := ⟨id, List.subset_cons_self _ _⟩

lemma held_of_change (h : Change s t) : Held s t := by
  refine ⟨fun hs => ?_, ?_⟩
  · cases h <;> exact hs
  · rcases h.log with hlog | ⟨o, -, hlog⟩
    · rw [hlog]
      exact List.Subset.refl _
    · rw [hlog]
      exact List.subset_cons_self _ _

lemma scheduled_addTask {task : Task} (h : Scheduled s) (hk : Queues task.kind.name) :
    Scheduled (s.addTask task) := by
  intro e k hq
  rcases (s.queued_addTask task e k).mp hq with hq | ⟨-, rfl⟩
  · exact h e k hq
  · exact hk

/-- A handler queues no task of the watcher. -/
lemma scheduled_write {log : Log} {target : ScanTarget} (h : Scheduled s)
    (hw : log.Write target s t) : Scheduled t := by
  cases hw with
  | act event hev hw =>
    cases hw with
    | store e claimer root ts hnew hnone => exact h
    | update hf => exact h
    | clear _ ks => exact fun e k hq => h e k ((s.queued_invalidateTasks _ _ k ks).mp hq).1
    | queue _ n hsettled =>
      refine scheduled_addTask h ?_
      cases event <;> exact ⟨nofun, nofun⟩
  | relay task hsig hepoch hkind =>
    refine scheduled_addTask h ?_
    rw [hkind]
    exact ⟨nofun, nofun⟩
  | save n => exact h

lemma rely_refl (i : Option Thread) (s : World) : (protocol route makeClaims).rely i s s := by
  rcases i with _ | (_ | _) | _
  · trivial
  · trivial
  · exact Held.refl s
  · exact Held.refl s

lemma rely_trans (i : Option Thread) (s t u : World) (h : (protocol route makeClaims).rely i s t)
    (h' : (protocol route makeClaims).rely i t u) : (protocol route makeClaims).rely i s u := by
  rcases i with _ | (_ | _) | _
  · trivial
  · trivial
  · exact Held.trans h h'
  · exact Held.trans h h'

lemma rely_of_held (i : Option Thread) (h : Held s t) : (protocol route makeClaims).rely i s t := by
  rcases i with _ | (_ | _) | _
  · trivial
  · trivial
  · exact h
  · exact h

/-- Whoever waits may do so, whatever it knows that stays. -/
lemma patient {J : World → Prop}
    (h : ∀ s t, J s → (protocol route makeClaims).rely i s t → Scheduled t → J t) :
    Patient (protocol route makeClaims) i J where
  rely := h
  issue q s hq _ _ tx htx := by
    subst htx
    exact hq.elim
  fault _ _ _ _ _ := trivial

/-! ### The prelude and the indexer -/

lemma wp_initialize {R : Unit → World → Prop} (hI : Scheduled s)
    (hR : ∀ t, Scheduled t → R () t) :
    (Indexer.initializeIndexer route).wp (protocol route makeClaims) none R s := by
  have hp : Patient (protocol route makeClaims) none fun _ => True := patient fun _ _ _ _ _ => trivial
  exact Prog.wp_mono (fun _ t ht => hR t ht.1) (Indexer.keeps_initializeIndexer hp
    (fun _ hIt _ => ⟨trivial, hIt, hIt, trivial⟩) (fun _ _ _ _ hIt _ => ⟨trivial, hIt, hIt, trivial⟩)
    s hI trivial)

lemma wp_indexer (n : ℕ) (hI : Scheduled s) : (Indexer.run route n).wp (protocol route makeClaims)
    (some (.inl .indexer)) (fun _ => Scheduled) s := by
  have hp : Patient (protocol route makeClaims) (some (.inl .indexer)) fun _ => True :=
    patient fun _ _ _ _ _ => trivial
  have hcatchup : ∀ target f, Prog.Keeps (protocol route makeClaims) (some (.inl .indexer))
      (fun _ => True) (Indexer.modifyCatchup target f) := by
    intro target f w hIw _
    have hheld : Held w (w.setCatchup target (f (w.catchup target))) :=
      ⟨fun hs => by rwa [World.schedule_setCatchup], by rw [World.log_setCatchup]; exact fun _ h => h⟩
    have hIw' : Scheduled (w.setCatchup target (f (w.catchup target))) := by
      intro e k hq
      rw [World.Queued, World.schedule_setCatchup] at hq
      exact hIw e k hq
    exact ⟨hheld, hIw', hIw', trivial⟩
  have hhandle : ∀ target log, Prog.Keeps (protocol route makeClaims) (some (.inl .indexer))
      (fun _ => True) (Indexer.handle route target log) := by
    intro target log w hIw _
    have hconfined : Confined (log.Write target) (Indexer.dispatch route target log) :=
      confined_dispatch target log
    have hdispatch := hconfined.keeps hp
      (fun u v hIu _ hw => ⟨held_of_change hw.change, scheduled_write hIu hw, scheduled_write hIu hw,
        trivial⟩) (fun _ _ _ _ _ => trivial) w hIw trivial
    exact Indexer.wp_handle hdispatch fun v hv => ⟨held_note v _, hv.1, hv.1, trivial⟩
  have hblock : ∀ target a b logs, Prog.Keeps (protocol route makeClaims) (some (.inl .indexer))
      (fun _ => True) (TaskStore.updateBlock target a b logs) := by
    intro target a b logs w hIw _
    have hheld : Held w (w.updateBlock target a b logs) := by
      cases target <;> exact ⟨id, List.subset_cons_self _ _⟩
    have hIw' : Scheduled (w.updateBlock target a b logs) := by
      intro e k hq
      rw [World.Queued, World.tasks_updateBlock] at hq
      exact hIw e k hq
    exact ⟨hheld, hIw', hIw', trivial⟩
  have hset : Prog.Keeps (protocol route makeClaims) (some (.inl .indexer)) (fun _ => True)
      (TaskStore.setOnSync true) :=
    fun w hIw _ => ⟨⟨fun _ => rfl, List.Subset.refl _⟩, hIw, hIw, trivial⟩
  exact Prog.wp_mono (fun _ _ h => h.1) (Indexer.keeps_run hp (fun _ _ _ _ => trivial) hcatchup
    hblock hset hhandle n s hI trivial)

/-! ### The watcher and the dispatcher -/

/-- The watcher, while it knows `J`. -/
abbrev WatcherKeeps {α : Type} (route : Route) (makeClaims : Bool) (J : World → Prop) (p : M α) :
    Prop := Prog.Keeps (protocol route makeClaims) (some (.inr ())) J p

def OnSync (w : World) : Prop := w.schedule.onSync = true

lemma patient_onSync : Patient (protocol route makeClaims) (some (.inr ())) OnSync :=
  patient fun _ _ hs h _ => Held.onSync h hs

lemma keeps_line {J : World → Prop} {line : Watch} (hJ : ∀ w, J w → J (w.note (.watch line))) :
    WatcherKeeps route makeClaims J (info (.watch line)) :=
  fun w hIw hw => ⟨held_note w _, hIw, hIw, hJ w hw⟩

lemma keeps_panic {α : Type} {J : World → Prop} {e : Panic} :
    WatcherKeeps route makeClaims J (.panic e : M α) := Prog.Keeps.panic fun _ _ _ => trivial

lemma keeps_saveBeforeEpoch (epochPeriod now : ℕ) (m : EpochWatcher.Memory) :
    WatcherKeeps route makeClaims (fun _ => True) (EpochWatcher.saveBeforeEpoch epochPeriod now m) := by
  intro w hIw _
  unfold EpochWatcher.saveBeforeEpoch
  rw [Prog.wp_bind, wp_isOnSync, Prog.wp_ite]
  refine ⟨fun ⟨hon, _, _⟩ => ?_, fun _ => ⟨hIw, trivial⟩⟩
  refine Prog.wp_mono (fun _ _ h => ⟨h.1, trivial⟩)
    (Prog.Keeps.bind (J := OnSync) (keeps_line fun _ h => h) (fun _ => ?_) w hIw hon)
  refine Prog.Keeps.bind (Tasks.keeps_saveSnapshot patient_onSync fun v _ hv tx htx => ?_)
    fun result => ?_
  · cases htx
    exact ⟨hv, .inl rfl⟩
  · cases result with
    | ok _ => exact Prog.Keeps.pure
    | error e => exact keeps_panic

lemma keeps_claimAfterEpoch (epochPeriod now : ℕ) (m : EpochWatcher.Memory) :
    WatcherKeeps route makeClaims (fun _ => True)
      (EpochWatcher.claimAfterEpoch route makeClaims epochPeriod now m) := by
  intro w hIw _
  unfold EpochWatcher.claimAfterEpoch
  rw [Prog.wp_bind, wp_isOnSync, Prog.wp_ite]
  refine ⟨fun ⟨hclaims, hon, _⟩ => ?_, fun _ => ⟨hIw, trivial⟩⟩
  refine Prog.wp_mono (fun _ _ h => ⟨h.1, trivial⟩) (Prog.Keeps.ite (J := OnSync) (fun _ => ?_)
    (fun _ => Prog.Keeps.pure) w hIw hon)
  refine Prog.Keeps.ite (fun _ => ?_) fun _ => Prog.Keeps.pure
  refine Prog.Keeps.bind (keeps_line fun _ h => h) fun _ => ?_
  refine Prog.Keeps.bind (keeps_claim patient_onSync fun root v x hroot hv _ hx tx htx => ?_)
    fun result => ?_
  · cases htx
    exact ⟨hx, .inr ⟨hclaims, _, root, v, rfl, hroot, hv⟩⟩
  · refine Prog.Keeps.bind (keeps_line fun _ h => h) fun _ => ?_
    cases result with
    | ok _ => exact Prog.Keeps.pure
    | error e =>
      refine Prog.Keeps.ite (fun _ => Prog.Keeps.pure) fun _ => ?_
      exact Prog.Keeps.ite (fun _ => Prog.Keeps.pure) fun _ => keeps_panic

lemma wp_watcher (epochPeriod n : ℕ) (m : EpochWatcher.Memory) (hI : Scheduled s) :
    (EpochWatcher.watchEpochs route makeClaims epochPeriod n m).wp (protocol route makeClaims)
      (some (.inr ())) (fun _ => Scheduled) s := by
  have hp : Patient (protocol route makeClaims) (some (.inr ())) fun _ => True :=
    patient fun _ _ _ _ _ => trivial
  have hsleep : ∀ m : EpochWatcher.Memory, WatcherKeeps route makeClaims (fun _ => True)
      (do sleep 10; pure m : M EpochWatcher.Memory) := fun m =>
    Prog.Keeps.bind (hp.keeps Quiet.sleep) fun _ => Prog.Keeps.pure
  have hnow : WatcherKeeps route makeClaims (fun _ => True) EpochWatcher.getCurrentTimestamp.run := by
    refine Prog.Keeps.run_bind (hp.rpc trivial) fun block => ?_
    cases block with
    | some block => exact Prog.Keeps.run_pure
    | none => exact Prog.Keeps.run_lift keeps_panic
  have hturn : ∀ m, WatcherKeeps route makeClaims (fun _ => True)
      (EpochWatcher.watchTurn route makeClaims epochPeriod m) := by
    intro m
    refine Prog.Keeps.bind hnow fun answer => ?_
    cases answer with
    | error e => exact hsleep m
    | ok now =>
      refine Prog.Keeps.ite (fun _ => keeps_panic) fun _ => ?_
      refine Prog.Keeps.bind (keeps_line fun _ _ => trivial) fun _ => ?_
      refine Prog.Keeps.bind (keeps_saveBeforeEpoch epochPeriod now m) fun m => ?_
      exact Prog.Keeps.bind (keeps_claimAfterEpoch epochPeriod now m) fun m => hsleep m
  have hloop : ∀ m, WatcherKeeps route makeClaims (fun _ => True)
      (EpochWatcher.watchEpochs route makeClaims epochPeriod n m) := by
    induction n with
    | zero => exact fun _ => Prog.Keeps.pure
    | succ n ih => exact fun m => (hturn m).bind ih
  exact Prog.wp_mono (fun _ _ h => h.1) (hloop m s hI trivial)

lemma wp_dispatcher (n : ℕ) (hI : Scheduled s) : (Dispatcher.run route n).wp
    (protocol route makeClaims) (some (.inl .dispatcher)) (fun _ => Scheduled) s := by
  have hp : Patient (protocol route makeClaims) (some (.inl .dispatcher)) fun _ => True :=
    patient fun _ _ _ _ _ => trivial
  have hclerk : Dispatcher.Clerk (protocol route makeClaims) (some (.inl .dispatcher)) := by
    refine ⟨fun o w _ hw => ⟨held_note w o, hw⟩, fun task n w hw => ⟨held_of_change
      (.rescheduleTask task n), fun e k hq => hw e k ((w.queued_rescheduleTask task e n k).mp hq)⟩,
      fun task w hw => ⟨held_of_change (.removeTask task), fun e k hq =>
        hw e k ((w.queued_removeTask task e k).mp hq).1⟩⟩
  refine Dispatcher.wp_run_of_passes hp (fun w hw => ?_) n hI
  refine Dispatcher.wp_processPending_onSync (L := fun _ l v => v.schedule.onSync = true ∧
    ∀ task ∈ l, Queues task.kind.name) hp (fun hon block v hv _ _ => ⟨Held.onSync hv hon, ?_⟩)
    (fun now task l v hIv ⟨hon, hl⟩ => ?_) hw
  · intro task htask
    exact hw _ _ (World.queued_of_mem (List.mem_of_mem_filter htask))
  -- the body of the task, which is named in the log and is not of the watcher
  have hreads : Reads (protocol route makeClaims) (some (.inl .dispatcher))
      (fun x => x.schedule.onSync = true ∧ .executing task ∈ x.log) task.epoch :=
    { patient fun _ _ hx h _ => ⟨Held.onSync h hx.1, Held.log h hx.2⟩ with
      none := fun _ _ _ _ => trivial
      many := fun _ _ _ => trivial }
  have hadd : ∀ n kind, kind = .startVerification ∨ kind = .challenge →
      Prog.Keeps (protocol route makeClaims) (some (.inl .dispatcher))
        (fun x => x.schedule.onSync = true ∧ .executing task ∈ x.log)
        (TaskStore.addTask ⟨task.epoch, n, kind⟩) := by
    intro n kind hkind x hIx hx
    have hq : Queues kind.name := by
      rcases hkind with rfl | rfl <;> exact ⟨nofun, nofun⟩
    exact ⟨held_of_change (.addTask _), scheduled_addTask hIx hq, scheduled_addTask hIx hq, hx.1,
      List.mem_cons_of_mem _ hx.2⟩
  refine Dispatcher.wp_processTask hclerk hIv (Prog.wp_mono ?_ (keeps_body hreads
    (fun _ _ _ => trivial) (fun _ _ _ => trivial) (fun tx x htx _ hx tx' heq => ?_) hadd
    (fun x hIx hx => ⟨held_of_change (.removeClaim _), hIx, hIx, hx⟩) _ hIv
    ⟨hon, List.mem_cons_self⟩))
  · rintro result x ⟨hIx, hx⟩
    refine ⟨hIx, fun e k hq => hIx e k ((Dispatcher.queued_finish _ _ _ _ _ _).mp hq).1, ?_,
      fun task' htask' => hl task' (List.mem_cons_of_mem _ htask')⟩
    unfold Dispatcher.finish
    rcases result with err | ⟨⟩
    · dsimp only
      split
      · exact hx.1
      · exact hx.1
    · exact hx.1
  · obtain rfl : tx = tx' := Query.send.inj heq
    exact ⟨hx.1, task, hx.2, hl task List.mem_cons_self, htx⟩

/-! ### The route -/

lemma covers (route : Route) (makeClaims : Bool)
    (answer : Role → (q : Query) → q.Answer → World → Prop) :
    Staged.Covers (protocol route makeClaims)
      (Main.routeSystem route makeClaims Scheduled answer Restarted) where
  rely_refl := rely_refl
  rely_trans := rely_trans
  guar_rely _ j _ _ _ h := rely_of_held (some j) h
  lead _ _ _ _ := trivial
  answer _ _ _ _ _ := trivial
  env s t hst hI := by
    obtain ⟨-, heq⟩ := hst
    have hheld : Held s t := by
      rw [heq]
      exact ⟨id, List.Subset.refl _⟩
    refine ⟨?_, fun i => rely_of_held i hheld⟩
    rw [heq]
    exact hI
  init _ hs := hs
  start pre s t hpre _ _ hI := by
    refine Main.wp_startRoute (patient fun _ _ _ _ _ => trivial) (rely_refl none) (rely_trans none) hI
      (fun b u _ _ hIu => wp_initialize hIu fun v hIv => ⟨hIv, ?_⟩) hpre
    rintro ((_ | _) | _) p ⟨n, rfl⟩ x _ hIx
    · exact wp_indexer n hIx
    · exact wp_dispatcher n hIx
    · exact wp_watcher b n {} hIx
  durable _ h := h
  restart s t hd h := by
    obtain ⟨onSync, rfl⟩ := h
    exact hd

/-- **Nothing is sent before the route has synced.** In every run of a route, with any panics, retries
and stops and whatever its files said at first: no transaction is waited for while the route starts,
none by the indexer, and while the others wait for one the route is on sync. The watcher saves
snapshots and claims roots other than zero, if it is to make claims; the dispatcher sends what a
queued task that it has begun to execute is for, with the claim and the deposit that it needs. -/
theorem transactions_gated (route : Route) (makeClaims : Bool)
    (answer : Role → (q : Query) → q.Answer → World → Prop)
    {c : Staged.Config Thread World Panic Query.Answer ℕ}
    (hc : (Main.routeSystem route makeClaims Scheduled answer Restarted).Reachable c) :
    (∀ p tx, c.stage = .starting p → p.query? ≠ some (.send tx)) ∧
    ∀ th i tx, c.stage = .running th → (th i).query? = some (.send tx) →
      c.store.schedule.onSync = true ∧
        (i = .inr () ∧ Watched route makeClaims tx ∨
          i = .inl .dispatcher ∧ Dispatched route tx c.store) := by
  have hstay : ∀ i q s t, (protocol route makeClaims).issue i q s →
      (protocol route makeClaims).rely i s t → (protocol route makeClaims).inv t →
      (protocol route makeClaims).issue i q t := by
    intro i q s t hq hst _ tx htx
    have hs := hq tx htx
    rcases i with _ | (_ | _) | _
    · exact hs
    · exact hs
    · obtain ⟨hon, task, hm, hsent⟩ := hs
      exact ⟨Held.onSync hst hon, task, Held.log hst hm, hsent⟩
    · exact ⟨Held.onSync hst hs.1, hs.2⟩
  have hissues := ((covers route makeClaims answer).reachable hstay hc).2
  obtain ⟨w, p | th⟩ := c
  · refine ⟨fun p' tx hp hq => ?_, nofun⟩
    cases hp
    exact hissues _ hq tx rfl
  · refine ⟨nofun, fun th' i tx hth hq => ?_⟩
    cases hth
    have hallowed := hissues i _ hq tx rfl
    rcases i with (_ | _) | _
    · exact hallowed.elim
    · exact ⟨hallowed.1, .inr ⟨rfl, hallowed.2⟩⟩
    · exact ⟨hallowed.1, .inl ⟨rfl, hallowed.2⟩⟩

/-! ### A verification that is started -/

/-- The sample route, whose dispatcher has two passes to make. -/
def launched : Coop.Config Thread World Panic Query.Answer where
  store := (Main.launched Coverage.sampleRoute).store
  thread
    | .inl .indexer => Indexer.run Coverage.sampleRoute 1
    | .inl .dispatcher => Dispatcher.run Coverage.sampleRoute 2
    | .inr () => EpochWatcher.watchEpochs Coverage.sampleRoute true 3600 0 {}

/-- The claim of epoch 5 has been scanned and validated, and its verification is being started. -/
def verifying : Coop.Config Thread World Panic Query.Answer :=
  launched.play (List.replicate 26 (.inl .indexer, Coverage.sampleNode) ++
    List.replicate 6 (.inl .dispatcher, Coverage.sampleNode))

abbrev sampleSystem (init : World → Prop) : Staged Thread World Panic Query.Answer ℕ :=
  Main.routeSystem Coverage.sampleRoute true init (fun _ _ _ _ => True) Restarted

lemma reachable_verifying {init : World → Prop} (hinit : init { heads := Coverage.sampleHeads }) :
    (sampleSystem init).Reachable ⟨verifying.store, .running verifying.thread⟩ := by
  have hanswer : ∀ (i : Thread) (q : Query) (a : q.Answer) (w : World),
      (sampleSystem init).answer i q a w := by
    intro i q a w
    rcases i with i | _ <;> trivial
  have heval : (Main.startRoute Coverage.sampleRoute).eval Coverage.sampleNode
      { heads := Coverage.sampleHeads } = (.ok 3600, launched.store) := by decide +kernel
  have hvisits : (Main.startRoute Coverage.sampleRoute).evalVisits Coverage.sampleNode
      (fun _ => true) { heads := Coverage.sampleHeads } = true := by decide +kernel
  have hlaunch : (sampleSystem init).Reachable ⟨launched.store, .running launched.thread⟩ := by
    refine Staged.reachable_launch (o := Coverage.sampleNode) (b := 3600) (v := fun _ => true)
      (fun q w _ => hanswer _ q _ w) (fun i => ?_) hinit heval hvisits
    rcases i with (_ | _) | _
    · exact ⟨1, rfl⟩
    · exact ⟨2, rfl⟩
    · exact ⟨0, rfl⟩
  exact Staged.reachable_visits Main.mem_threads (v := fun _ => true)
    (fun x _ q w _ => hanswer x.1 q _ w) hlaunch (by decide +kernel) (by decide +kernel)

/-- The claim that is sent, of the root and the block that the log has. -/
def sampleClaim : Claim := ⟨1, 9, 2500, 0, 0, .none, 0⟩

theorem transactions_gated_sample : ∃ w th, (sampleSystem Scheduled).Reachable ⟨w, .running th⟩ ∧
    (th (.inl .dispatcher)).query? = some (.send (.startVerification 5 sampleClaim)) ∧
    w.schedule.onSync = true := by
  have hquery : (verifying.thread (.inl .dispatcher)).query? =
      some (.send (.startVerification 5 sampleClaim)) := by decide +kernel
  have hreach : (sampleSystem Scheduled).Reachable ⟨verifying.store, .running verifying.thread⟩ :=
    reachable_verifying fun _ _ hq => by cases hq
  generalize verifying = c at hquery hreach
  exact ⟨_, _, hreach, hquery, ((transactions_gated Coverage.sampleRoute true (fun _ _ _ _ => True)
    hreach).2 _ _ _ rfl hquery).1⟩

end Gate

end VeaValidator
