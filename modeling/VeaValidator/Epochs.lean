import VeaValidator.Coop.Local
import VeaValidator.Interleaving
import VeaValidator.Writes

/-!
Epochs do not interfere.

Every store operation rewrites a whole file, and every guard searches one. What they do to the
claims and the tasks of an epoch still depends on nothing else in the files, and what they do
for another epoch leaves these as they are. So a sequence of steps can be cut down to the steps
of one epoch.
-/

namespace VeaValidator

open Coop
open Prog (Local evals)

/-- What the files hold of one epoch, and when indexing began. -/
structure Slice where
  claims : List ClaimData
  tasks : List Task
  indexingSince : Option ℕ

def World.slice (e : ℕ) (w : World) : Slice :=
  ⟨w.entries e, Keyed.entries Task.epoch e w.schedule.tasks, w.schedule.indexingSince⟩

/-! ### The steps -/

/-- A store operation of the dispatcher. -/
inductive StoreOp
  | removeTask (task : Task)
  | rescheduleTask (task : Task) (executeAfter : ℕ)
  /-- What `validate_claim` schedules, from the claimed root and the inbox's. -/
  | followUp (epoch executeAfter : ℕ) (claimed root : Word)
  | removeClaim (epoch : ℕ)

namespace StoreOp

def epoch : StoreOp → ℕ
  | .removeTask task | .rescheduleTask task _ => task.epoch
  | .followUp epoch _ _ _ | .removeClaim epoch => epoch

def run : StoreOp → M Unit
  | .removeTask task => TaskStore.removeTask task
  | .rescheduleTask task executeAfter => TaskStore.rescheduleTask task executeAfter
  | .followUp epoch executeAfter claimed root =>
    TaskStore.addTask ⟨epoch, executeAfter, Dispatcher.verdict claimed root⟩
  | .removeClaim epoch => ClaimStore.remove epoch

end StoreOp

/-- The handling of a log, with what the nodes answer meanwhile, or an operation of the
dispatcher. -/
inductive Op
  | handle (target : ScanTarget) (log : Log) (answers : (q : Query) → q.Answer)
  | store (op : StoreOp)

namespace Op

/-- The epoch of a step, if it has one. -/
def epoch : Op → Option ℕ
  | .handle .outbox log _ => log.event?.map Event.epoch
  | .handle .inbox log _ =>
    if log.topics.head? = some sigSnapshotSent then Indexer.snapshotEpoch log else none
  | .store op => some op.epoch

def answers : Op → (q : Query) → q.Answer
  | .handle _ _ answers => answers
  | .store _ => fun _ => .error ""

def run (route : Route) : Op → M Unit
  | .handle target log _ => Indexer.handle route target log
  | .store op => op.run

end Op

namespace Epochs

variable {e : ℕ}

/-! ### The slice after each write -/

section
variable (w : World) (task : Task) (c : ClaimData) (e' n : ℕ) (ks : List KindName)
  (f : ClaimData → ClaimData)

lemma slice_addTask : (w.addTask task).slice e = { w.slice e with
    tasks := (w.slice e).tasks ++ if task.epoch = e then [task] else [] } := by
  unfold World.slice
  rw [World.entries_addTask]
  exact congrArg (Slice.mk _ · _) Keyed.entries_append_singleton

lemma slice_removeTask : (w.removeTask task).slice e = { w.slice e with
    tasks := if task.epoch = e then Keyed.erase Task.key task.key (w.slice e).tasks
      else (w.slice e).tasks } :=
  congrArg (Slice.mk _ · _) (Keyed.entries_erase (g := Prod.fst) fun _ => rfl)

lemma slice_rescheduleTask : (w.rescheduleTask task n).slice e = { w.slice e with
    tasks := if task.epoch = e then
        Keyed.update Task.key task.key (fun t => { t with executeAfter := n }) (w.slice e).tasks
      else (w.slice e).tasks } :=
  congrArg (Slice.mk _ · _) (Keyed.entries_update (g := Prod.fst) (fun _ => rfl) fun _ => rfl)

lemma slice_invalidateTasks : (w.invalidateTasks e' ks).slice e = { w.slice e with
    tasks := if e' = e then (w.slice e).tasks.filter fun t => t.kind.name ∉ ks
      else (w.slice e).tasks } := by
  refine congrArg (Slice.mk _ · _) ?_
  unfold World.slice Keyed.entries World.invalidateTasks
  dsimp only
  rw [List.filter_filter]
  split
  · rw [List.filter_filter]
    refine List.filter_congr fun t _ => ?_
    grind
  · refine List.filter_congr fun t _ => ?_
    grind

lemma slice_storeClaim : (w.storeClaim c).slice e = { w.slice e with
    claims := (w.slice e).claims ++ if c.epoch = e then [c] else [] } :=
  congrArg (Slice.mk · _ _) (World.entries_storeClaim w c e)

lemma slice_updateClaim (hf : ∀ c, (f c).epoch = c.epoch) :
    (w.updateClaim e' f).slice e = { w.slice e with
      claims := if e' = e then Keyed.update ClaimData.epoch e' f (w.slice e).claims
        else (w.slice e).claims } :=
  congrArg (Slice.mk · _ _) (Keyed.entries_update (g := id) (fun _ => rfl) hf)

lemma slice_removeClaim : (w.removeClaim e').slice e = { w.slice e with
    claims := if e' = e then Keyed.erase ClaimData.epoch e' (w.slice e).claims
      else (w.slice e).claims } :=
  congrArg (Slice.mk · _ _) (Keyed.entries_erase (g := id) fun _ => rfl)

end

/-! ### Steps of the epoch -/

section
variable {route : Route} {log : Log} {s t : World}

/-- The guards that search the queue see the tasks of the epoch only. -/
lemma any_tasks_congr (h : s.slice e = t.slice e) (p : Task → Prop) [DecidablePred p] :
    (s.schedule.tasks.any fun task => task.epoch = e ∧ p task) =
      t.schedule.tasks.any fun task => task.epoch = e ∧ p task := by
  have hany : ∀ w : World, (w.schedule.tasks.any fun task => task.epoch = e ∧ p task) =
      (w.slice e).tasks.any fun task => p task := by
    intro w
    show _ = (w.schedule.tasks.filter _).any _
    rw [List.any_filter]
    simp
  rw [hany, hany, h]

lemma claim?_congr (h : s.slice e = t.slice e) : s.claim? e = t.claim? e := by
  rw [World.claim?_eq_head?_entries, World.claim?_eq_head?_entries]
  exact congrArg (·.claims.head?) h

lemma local_addTask (task : Task) : Local (World.slice e) (TaskStore.addTask task) :=
  .modify fun s t h => by rw [slice_addTask, slice_addTask, h]

lemma local_invalidateTasks (e' : ℕ) (ks : List KindName) :
    Local (World.slice e) (TaskStore.invalidateTasks e' ks) :=
  .modify fun s t h => by rw [slice_invalidateTasks, slice_invalidateTasks, h]

lemma local_store (c : ClaimData) (hc : c.epoch = e) :
    Local (World.slice e) (ClaimStore.store c) := by
  refine .gets_bind (fun s t h => ?_) fun claims => .ite .panic (.modify fun s t h => ?_)
  · have hclaims : s.entries e = t.entries e := congrArg Slice.claims h
    have hlen : (Keyed.entries ClaimData.epoch c.epoch s.claims).length =
        (Keyed.entries ClaimData.epoch c.epoch t.claims).length := by
      rw [hc]
      exact congrArg List.length hclaims
    rw [hlen]
  · rw [slice_storeClaim, slice_storeClaim, h]

lemma local_update {f : ClaimData → ClaimData} (hf : ∀ c, (f c).epoch = c.epoch) :
    Local (World.slice e) (ClaimStore.update e f) := by
  refine .gets_bind (fun s t h => ?_) fun claims => ?_
  · have hlookup : Keyed.lookup ClaimData.epoch e s.claims =
        Keyed.lookup ClaimData.epoch e t.claims := claim?_congr h
    rw [hlookup]
  · cases Keyed.lookup ClaimData.epoch e claims with
    | none => exact .panic
    | some _ => exact .modify fun s t h => by rw [slice_updateClaim _ _ f hf, slice_updateClaim _ _ f hf, h]

lemma local_get : Local (World.slice e) (ClaimStore.get e) := by
  refine .gets_bind (fun s t h => ?_) fun claims => ?_
  · have hclaims : Keyed.entries ClaimData.epoch e s.claims =
        Keyed.entries ClaimData.epoch e t.claims := congrArg Slice.claims h
    rw [hclaims]
  · rcases Keyed.entries ClaimData.epoch e claims with _ | ⟨c, _ | ⟨c', l⟩⟩
    · exact .panic
    · exact .pure
    · exact .panic

lemma local_existsClaim_bind {α : Type} {g : Bool → M α} (hg : ∀ b, Local (World.slice e) (g b)) :
    Local (World.slice e) (ClaimStore.existsClaim e >>= g) := by
  refine .gets_bind (fun s t h => ?_) fun claims => hg _
  have hsome := any_epoch (s := s) (e := e)
  rw [claim?_congr h, ← any_epoch] at hsome
  exact congrArg g hsome

lemma local_expectSome {α β : Type} {V : World → β} (msg : String) (o : Option α) :
    Local V (expectSome msg o) := by
  cases o with
  | none => exact .panic
  | some a => exact .pure

lemma local_expectOk {α β : Type} {V : World → β} (msg : String) (r : Except String α) :
    Local V (expectOk msg r) := by
  cases r with
  | error err => exact .panic
  | ok a => exact .pure

lemma local_toU64 {β : Type} {V : World → β} (w : Word) : Local V (toU64 w) := .ite .pure .panic

lemma local_getLogTimestamp {β : Type} {V : World → β} (provider : Provider) :
    Local V (Indexer.getLogTimestamp log provider) := by
  unfold Indexer.getLogTimestamp
  cases log.blockTimestamp with
  | some ts => exact .pure
  | none =>
    refine (local_expectSome _ _).bind fun n => Local.ask.bind fun a => ?_
    exact (local_expectOk _ _).bind fun b => (local_expectSome _ _).bind fun b => .pure

lemma local_missingClaim (ts : ℕ) : Local (World.slice e) (Indexer.missingClaim route e ts) := by
  refine .gets_bind (fun s t h => ?_) fun state => .ite .pure .panic
  have hsince : s.schedule.indexingSince = t.schedule.indexingSince :=
    congrArg Slice.indexingSince h
  rw [hsince]

lemma local_claimed (claimer : Address) (root : Word) :
    Local (World.slice e) (Indexer.claimed log e claimer root) := by
  refine (local_getLogTimestamp .outbox).bind fun ts => ?_
  refine .gets_bind (fun s t h => ?_) fun state => .ite .pure ?_
  · have hany := any_tasks_congr h fun _ => True
    simp only [and_true] at hany
    rw [hany]
  · exact (local_store (ClaimData.fresh e root claimer (u32 ts)) rfl).bind fun _ => local_addTask _

lemma local_verificationStarted :
    Local (World.slice e) (Indexer.verificationStarted route log e) := by
  refine local_existsClaim_bind fun stored => .ite ?_ ?_
  · exact (local_getLogTimestamp .outbox).bind fun ts => local_missingClaim ts
  · refine (local_getLogTimestamp .outbox).bind fun ts => (local_expectSome _ _).bind fun n => ?_
    refine (local_update (f := ClaimData.startVerification _ _) fun _ => rfl).bind fun _ => ?_
    exact (local_invalidateTasks e _).bind fun _ => local_addTask _

lemma local_challenged (challenger : Address) :
    Local (World.slice e) (Indexer.challenged route log e challenger) := by
  refine local_existsClaim_bind fun stored => .ite ?_ ?_
  · exact (local_getLogTimestamp .outbox).bind fun ts => local_missingClaim ts
  · refine (local_update (f := ClaimData.challengeBy _) fun _ => rfl).bind fun _ => ?_
    refine (local_invalidateTasks e _).bind fun _ => ?_
    exact (local_getLogTimestamp .outbox).bind fun ts => local_addTask _

lemma local_verified : Local (World.slice e) (Indexer.verified route log e) := by
  refine (local_getLogTimestamp .outbox).bind fun ts => ?_
  refine local_existsClaim_bind fun stored => .ite (local_missingClaim ts) ?_
  refine local_get.bind fun claim => (Local.ask.bind fun a => local_expectOk _ _).bind fun root => ?_
  refine (local_update (f := ClaimData.settle _) fun _ => rfl).bind fun _ => ?_
  exact (local_invalidateTasks e _).bind fun _ => local_addTask _

lemma local_dispatchOutboxEvent (h : log.event?.map Event.epoch = some e) :
    Local (World.slice e) (Indexer.dispatchOutboxEvent route log) := by
  obtain ⟨event, hev, rfl⟩ := Option.map_eq_some_iff.mp h
  have heq := Indexer.dispatchOutboxEvent_eq route log
  rw [hev] at heq
  dsimp only at heq
  rw [heq]
  cases event with
  | claimed e claimer root => exact local_claimed claimer root
  | verificationStarted e => exact local_verificationStarted
  | challenged e challenger => exact local_challenged challenger
  | verified e => exact local_verified

lemma local_fetchL2ToL1FromTx {β : Type} {V : World → β} (txHash : Word) (epoch : ℕ) :
    Local V (Indexer.fetchL2ToL1FromTx route txHash epoch) := by
  refine Local.ask.bind fun a => (local_expectOk _ _).bind fun r => ?_
  refine (local_expectSome _ _).bind fun receipt => ?_
  cases Indexer.firstL2ToL1Tx receipt.logs with
  | none => exact .pure
  | some decoded =>
    refine (local_expectSome _ _).bind fun n => Local.ask.bind fun b => ?_
    refine (local_expectOk _ _).bind fun b => (local_expectSome _ _).bind fun block => ?_
    refine (local_toU64 _).bind fun l2 => (local_toU64 _).bind fun l1 => ?_
    exact (local_toU64 _).bind fun ts => .pure

lemma local_handleSnapshotSent (h : Indexer.snapshotEpoch log = some e) :
    Local (World.slice e) (Indexer.handleSnapshotSent route log) := by
  rw [Indexer.handleSnapshotSent, Indexer.parseEpochFromSnapshotSent]
  cases htopic : log.topics[1]? with
  | none => exact .pure
  | some w =>
    rw [Indexer.snapshotEpoch, htopic, Option.bind_some] at h
    dsimp only
    rw [bind_assoc, Indexer.toU64_bind, h]
    refine .gets_bind (fun s t hst => ?_) fun state => .ite .pure ?_
    · rw [any_tasks_congr hst fun task => task.kind.name = .executeRelay]
    · cases log.transactionHash with
      | none => exact .pure
      | some txHash =>
        refine Local.ask.bind fun a => (local_expectOk _ _).bind fun tx => ?_
        refine (local_expectSome _ _).bind fun signer => .ite .pure ?_
        refine (local_fetchL2ToL1FromTx txHash e).bind fun task => ?_
        cases task with
        | none => exact .pure
        | some task => exact local_addTask task

lemma local_dispatchInboxEvent (hsig : log.topics.head? = some sigSnapshotSent)
    (h : Indexer.snapshotEpoch log = some e) :
    Local (World.slice e) (Indexer.dispatchInboxEvent route log) := by
  rw [Indexer.dispatchInboxEvent, hsig]
  exact local_handleSnapshotSent h

lemma local_storeOp (op : StoreOp) : Local (World.slice e) op.run := by
  cases op with
  | removeTask task => exact .modify fun s t h => by rw [slice_removeTask, slice_removeTask, h]
  | rescheduleTask task n =>
    exact .modify fun s t h => by rw [slice_rescheduleTask, slice_rescheduleTask, h]
  | followUp e' n claimed root => exact local_addTask _
  | removeClaim e' => exact .modify fun s t h => by rw [slice_removeClaim, slice_removeClaim, h]

lemma local_run {op : Op} (h : op.epoch = some e) : Local (World.slice e) (op.run route) := by
  cases op with
  | store op => exact local_storeOp op
  | handle target log answers =>
    refine Local.bind ?_ fun _ => .modify fun s t hst => hst
    cases target with
    | outbox => exact local_dispatchOutboxEvent h
    | inbox =>
      rw [Op.epoch] at h
      split at h
      · next hsig => exact local_dispatchInboxEvent hsig h
      · cases h

/-! ### Steps of another epoch -/

/-- The indexer alone, with fixed answers of the nodes. -/
abbrev alone (o : (q : Query) → q.Answer) : Protocol Unit World Panic Query.Answer :=
  .disturbed Eq (fun q a _ => a = o q) fun _ _ => True

lemma patient_alone (o : (q : Query) → q.Answer) (J : World → Prop) :
    Patient (alone o) () J where
  rely s t hJ ht _ := by
    obtain rfl : s = t := ht
    exact hJ
  issue _ _ _ _ _ := trivial
  fault _ _ _ _ _ := trivial

section
variable {o : (q : Query) → q.Answer} {v : Slice} {e' : ℕ}

/-- The program leaves the slice `v` of epoch `e` alone. -/
abbrev Spares (o : (q : Query) → q.Answer) (e : ℕ) (v : Slice) {α : Type} (p : M α) : Prop :=
  Prog.Keeps (alone o) () (fun w => w.slice e = v) p

lemma spares_modify {f : World → World} (hf : ∀ w, (f w).slice e = w.slice e) :
    Spares o e v (Prog.modify f) := fun s _ hs => ⟨trivial, trivial, trivial, (hf s).trans hs⟩

/-- What a handler writes for another epoch. -/
lemma slice_write {event : Event} {s t : World} (h : event.Write s t) (he : event.epoch ≠ e) :
    t.slice e = s.slice e := by
  cases h with
  | store e' claimer root ts hnew hnone =>
    have hne : (ClaimData.fresh e' root claimer ts).epoch ≠ e := he
    rw [slice_storeClaim, if_neg hne, List.append_nil]
  | update hf => rw [slice_updateClaim _ _ _ hf.epoch, if_neg he]
  | clear _ ks => rw [slice_invalidateTasks, if_neg he]
  | queue _ n hsettled => rw [slice_addTask, if_neg he, List.append_nil]

/-- A log is of the epoch its handler writes for. -/
lemma slice_logWrite {target : ScanTarget} {answers : (q : Query) → q.Answer} {s t : World}
    (h : log.Write target s t) (he : (Op.handle target log answers).epoch ≠ some e) :
    t.slice e = s.slice e := by
  cases h with
  | act event hev h =>
    refine slice_write h fun heq => he ?_
    rw [Op.epoch, hev, ← heq, Option.map_some]
  | relay task hsig hepoch hkind =>
    have hne : task.epoch ≠ e := by
      rintro rfl
      exact he (by rw [Op.epoch, if_pos hsig, hepoch])
    rw [slice_addTask, if_neg hne, List.append_nil]
  | save n => rfl

lemma spares_storeOp {op : StoreOp} (h : op.epoch ≠ e) : Spares o e v op.run := by
  cases op with
  | removeTask task =>
    have hne : task.epoch ≠ e := h
    exact spares_modify fun w => by rw [slice_removeTask, if_neg hne]
  | rescheduleTask task n =>
    have hne : task.epoch ≠ e := h
    exact spares_modify fun w => by rw [slice_rescheduleTask, if_neg hne]
  | followUp e' n claimed root =>
    have hne : e' ≠ e := h
    exact spares_modify fun w => by rw [slice_addTask, if_neg hne, List.append_nil]
  | removeClaim e' =>
    have hne : e' ≠ e := h
    exact spares_modify fun w => by rw [slice_removeClaim, if_neg hne]

lemma spares_run {op : Op} (h : op.epoch ≠ some e) : Spares o e v (op.run route) := by
  cases op with
  | store op => exact spares_storeOp fun he => h (congrArg some he)
  | handle target log answers =>
    refine Prog.Keeps.bind ?_ fun _ s hI hs => ⟨trivial, trivial, hI, hs⟩
    exact (confined_dispatch target log).keeps (patient_alone o _)
      (fun s t _ hs hw => ⟨trivial, trivial, trivial, (slice_logWrite hw h).trans hs⟩)
      fun _ _ _ _ _ => trivial

end

/-! ### The theorem -/

/-- **Epochs do not interfere.** When a sequence of steps runs without a panic, so do its steps
of epoch `e` alone, and they leave the same claims and the same tasks of `e`, in the same
order. -/
theorem epochs_independent (route : Route) (s : World) (ops : List Op)
    (hok : (evals Op.answers (Op.run route) ops s).1 = .ok ()) (e : ℕ) :
    let all := evals Op.answers (Op.run route) ops s
    let own := evals Op.answers (Op.run route) (ops.filter fun op => op.epoch = some e) s
    own.1 = .ok () ∧ own.2.claim? e = all.2.claim? e ∧ own.2.entries e = all.2.entries e ∧
      own.2.schedule.tasks.filter (fun t => t.epoch = e) =
        all.2.schedule.tasks.filter fun t => t.epoch = e := by
  have hrun := Prog.evals_filter (V := World.slice e) (fun op : Op => op.epoch = some e)
    (fun op _ h => local_run (by simpa using h)) (fun op _ h o t _ ha => ?_) (rfl : s.slice e = _) hok
  · obtain ⟨hown, hslice⟩ := hrun
    exact ⟨hown, claim?_congr hslice, congrArg Slice.claims hslice, congrArg Slice.tasks hslice⟩
  · exact (Prog.eval_of_wp (spares_run (by simpa using h) t trivial rfl) ha).2

end

/-- Two epochs side by side: one is challenged while the other is settled. -/
def sampleOps : List Op :=
  [.handle .outbox (Sample.claimed 5 1 3) (Sample.node 100 0),
    .handle .outbox (Sample.claimed 6 2 4) (Sample.node 100 0),
    .store (.followUp 6 100 2 1),
    .handle .outbox (Sample.verificationStarted 5 5) (Sample.node 100 0),
    .handle .outbox (Sample.challenged 6 6) (Sample.node 100 0),
    .store (.rescheduleTask ⟨6, 60, .sendSnapshot⟩ 200),
    .handle .outbox (Sample.verified 5 8) (Sample.node 100 0)]

theorem epochs_independent_sample :
    let all := evals Op.answers (Op.run Sample.route) sampleOps {}
    let own := evals Op.answers (Op.run Sample.route)
      (sampleOps.filter fun op => op.epoch = some 6) {}
    own.1 = .ok () ∧ own.2.claim? 6 = all.2.claim? 6 ∧ own.2.entries 6 = all.2.entries 6 ∧
      own.2.schedule.tasks.filter (fun t => t.epoch = 6) =
        all.2.schedule.tasks.filter fun t => t.epoch = 6 :=
  epochs_independent Sample.route {} sampleOps (by decide +kernel) 6

end Epochs

end VeaValidator
