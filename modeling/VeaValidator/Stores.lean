import VeaValidator.Keyed
import VeaValidator.World

/-!
The two stores of a route, `TaskStore` and `ClaimStore`.

Every operation loads its file, changes it and saves it, with no suspension point in between;
it is one write to the world. The line it writes to the log is part of that write. Besides
the operations this file has the three views of the world that the invariants speak of: the
stored claim of an epoch, whether a task is queued, and the log.
-/

namespace VeaValidator

open Coop

namespace World

/-! ### Operations on the schedule file -/

def addTask (w : World) (task : Task) : World :=
  { w with
    schedule := { w.schedule with tasks := w.schedule.tasks ++ [task] }
    log := .scheduling task :: w.log }

def removeTask (w : World) (task : Task) : World :=
  { w with schedule := { w.schedule with tasks := Keyed.erase Task.key task.key w.schedule.tasks } }

def rescheduleTask (w : World) (task : Task) (executeAfter : ℕ) : World :=
  { w with
    schedule := { w.schedule with
      tasks := Keyed.update Task.key task.key (fun t => { t with executeAfter }) w.schedule.tasks }
    log := .rescheduling task executeAfter :: w.log }

def invalidateTasks (w : World) (epoch : ℕ) (kinds : List KindName) : World :=
  let tasks := w.schedule.tasks.filter fun t => !(t.epoch = epoch ∧ t.kind.name ∈ kinds)
  let removed := w.schedule.tasks.length - tasks.length
  { w with
    schedule := { w.schedule with tasks := tasks }
    log := if removed > 0 then .invalidated epoch removed :: w.log else w.log }

def setOnSync (w : World) (value : Bool) : World :=
  { w with schedule := { w.schedule with onSync := value } }

def setLastSavedCount (w : World) (count : ℕ) : World :=
  { w with schedule := { w.schedule with lastSavedCount := some count } }

def lastBlock (w : World) : ScanTarget → Option ℕ
  | .inbox => w.schedule.inboxLastBlock
  | .outbox => w.schedule.outboxLastBlock

/-- `update_inbox_block` and `update_outbox_block`, at the end of a chunk. -/
def updateBlock (w : World) (target : ScanTarget) (fromBlock block : ℕ) (logs : List Log) : World :=
  { w with
    schedule := match target with
      | .inbox => { w.schedule with inboxLastBlock := some block }
      | .outbox => { w.schedule with outboxLastBlock := some block }
    log := .scanned target fromBlock block logs :: w.log }

def initializeSync (w : World) (indexingSince inboxBlock outboxBlock : ℕ) : World :=
  { w with
    schedule := { w.schedule with
      indexingSince := some indexingSince
      inboxLastBlock := some inboxBlock
      outboxLastBlock := some outboxBlock }
    log := .initializedSync indexingSince inboxBlock outboxBlock :: w.log }

/-! ### Operations on the claims file -/

def storeClaim (w : World) (claim : ClaimData) : World := { w with claims := w.claims ++ [claim] }

def updateClaim (w : World) (epoch : ℕ) (f : ClaimData → ClaimData) : World :=
  { w with claims := Keyed.update ClaimData.epoch epoch f w.claims }

def removeClaim (w : World) (epoch : ℕ) : World :=
  { w with claims := Keyed.erase ClaimData.epoch epoch w.claims }

end World

/-- The party `get_claim` reads from the stored string. -/
def partyOf (honest : String) : Party :=
  if honest = "Claimer" then .claimer else if honest = "Challenger" then .challenger else .none

/-- The `Claim` struct `get_claim` builds from an entry. -/
def ClaimData.toClaim (c : ClaimData) : Claim where
  stateRoot := c.stateRoot
  claimer := c.claimer
  timestampClaimed := c.timestampClaimed
  timestampVerification := c.timestampVerification
  blocknumberVerification := c.blocknumberVerification
  honest := partyOf c.honest
  challenger := c.challenger

namespace TaskStore

def load : M RouteState := Prog.gets (·.schedule)
def addTask (task : Task) : M Unit := Prog.modify (·.addTask task)
def removeTask (task : Task) : M Unit := Prog.modify (·.removeTask task)
def rescheduleTask (task : Task) (executeAfter : ℕ) : M Unit :=
  Prog.modify (·.rescheduleTask task executeAfter)
def invalidateTasks (epoch : ℕ) (kinds : List KindName) : M Unit :=
  Prog.modify (·.invalidateTasks epoch kinds)
def isOnSync : M Bool := Prog.gets (·.schedule.onSync)
def setOnSync (value : Bool) : M Unit := Prog.modify (·.setOnSync value)
def getLastSavedCount : M (Option ℕ) := Prog.gets (·.schedule.lastSavedCount)
def setLastSavedCount (count : ℕ) : M Unit := Prog.modify (·.setLastSavedCount count)
def updateBlock (target : ScanTarget) (fromBlock block : ℕ) (logs : List Log) : M Unit :=
  Prog.modify (·.updateBlock target fromBlock block logs)
def initializeSync (indexingSince inboxBlock outboxBlock : ℕ) : M Unit :=
  Prog.modify (·.initializeSync indexingSince inboxBlock outboxBlock)

end TaskStore

namespace ClaimStore

def loadAll : M (List ClaimData) := Prog.gets (·.claims)

def store (claim : ClaimData) : M Unit := do
  let claims ← loadAll
  let existing := (Keyed.entries ClaimData.epoch claim.epoch claims).length
  if existing > 0 then
    .panic (.duplicateClaim claim.epoch)
  else
    Prog.modify (·.storeClaim claim)

def update (epoch : ℕ) (f : ClaimData → ClaimData) : M Unit := do
  let claims ← loadAll
  match Keyed.lookup ClaimData.epoch epoch claims with
  | some _ => Prog.modify (·.updateClaim epoch f)
  | none => .panic (.cannotUpdateClaim epoch)

def get (epoch : ℕ) : M ClaimData := do
  let claims ← loadAll
  match Keyed.entries ClaimData.epoch epoch claims with
  | [] => .panic (.noClaimFound epoch)
  | [claim] => pure claim
  | _ => .panic (.multipleClaims epoch)

def getClaim (epoch : ℕ) : M Claim := do
  let c ← get epoch
  pure c.toClaim

def remove (epoch : ℕ) : M Unit := Prog.modify (·.removeClaim epoch)

def hasStateRootInRecentClaims (stateRoot : Word) (sinceTimestamp : ℕ) : M Bool := do
  let claims ← loadAll
  pure (claims.any fun c => c.stateRoot = stateRoot ∧ c.timestampClaimed ≥ sinceTimestamp)

def existsClaim (epoch : ℕ) : M Bool := do
  let claims ← loadAll
  pure (claims.any fun c => c.epoch = epoch)

end ClaimStore

/-! ### The views -/

namespace World

/-- The stored claim of epoch `e`. -/
def claim? (w : World) (e : ℕ) : Option ClaimData := Keyed.lookup ClaimData.epoch e w.claims

/-- All stored claims of epoch `e`; more than one is a panic of every reader. -/
def entries (w : World) (e : ℕ) : List ClaimData := Keyed.entries ClaimData.epoch e w.claims

/-- A task of kind `k` is queued for epoch `e`. -/
def Queued (w : World) (e : ℕ) (k : KindName) : Prop := (e, k) ∈ w.schedule.tasks.map Task.key

instance (w : World) (e : ℕ) (k : KindName) : Decidable (w.Queued e k) :=
  inferInstanceAs (Decidable (_ ∈ _))

/-- The key of a queued task. -/
lemma queued_of_mem {w : World} {t : Task} (h : t ∈ w.schedule.tasks) :
    w.Queued t.epoch t.kind.name := List.mem_map.mpr ⟨t, h, rfl⟩

variable (w : World) (t : Task) (o : Obs) (c : ClaimData) (e e' n : ℕ) (k : KindName)
  (ks : List KindName) (f : ClaimData → ClaimData) (b : Bool)

@[simp] lemma claim?_note : (w.note o).claim? e = w.claim? e := rfl
@[simp] lemma claim?_addTask : (w.addTask t).claim? e = w.claim? e := rfl
@[simp] lemma claim?_removeTask : (w.removeTask t).claim? e = w.claim? e := rfl
@[simp] lemma claim?_rescheduleTask : (w.rescheduleTask t n).claim? e = w.claim? e := rfl
@[simp] lemma claim?_invalidateTasks : (w.invalidateTasks e' ks).claim? e = w.claim? e := rfl
@[simp] lemma claim?_setOnSync : (w.setOnSync b).claim? e = w.claim? e := rfl
@[simp] lemma claim?_setLastSavedCount : (w.setLastSavedCount n).claim? e = w.claim? e := rfl

@[simp] lemma claim?_storeClaim :
    (w.storeClaim c).claim? e = (w.claim? e).or (if c.epoch = e then some c else none) :=
  Keyed.lookup_append_singleton

lemma claim?_updateClaim (hf : ∀ c, (f c).epoch = c.epoch) :
    (w.updateClaim e' f).claim? e = if e = e' then (w.claim? e').map f else w.claim? e :=
  Keyed.lookup_update hf

/-- An update neither makes nor loses a claim. -/
lemma claim?_updateClaim_eq_none (hf : ∀ c, (f c).epoch = c.epoch) :
    (w.updateClaim e' f).claim? e = none ↔ w.claim? e = none := by
  rw [claim?_updateClaim w e e' f hf]
  by_cases he : e = e'
  · subst he
    rw [if_pos rfl, Option.map_eq_none_iff]
  · rw [if_neg he]

lemma stored_storeClaim : (w.storeClaim c).claim? e ≠ none ↔ w.claim? e ≠ none ∨ c.epoch = e := by
  rw [claim?_storeClaim, ne_eq, Option.or_eq_none_iff]
  by_cases he : c.epoch = e
  · simp [he]
  · simp [he]

lemma stored_updateClaim (hf : ∀ c, (f c).epoch = c.epoch) :
    (w.updateClaim e' f).claim? e ≠ none ↔ w.claim? e ≠ none :=
  not_congr (claim?_updateClaim_eq_none w e e' f hf)

@[simp] lemma claim?_removeClaim :
    (w.removeClaim e').claim? e = if e = e' then none else w.claim? e :=
  Keyed.lookup_erase

lemma claim?_eq_head?_entries : w.claim? e = (w.entries e).head? :=
  Keyed.lookup_eq_head?_entries

@[simp] lemma entries_note : (w.note o).entries e = w.entries e := rfl
@[simp] lemma entries_addTask : (w.addTask t).entries e = w.entries e := rfl
@[simp] lemma entries_invalidateTasks : (w.invalidateTasks e' ks).entries e = w.entries e := rfl

@[simp] lemma entries_storeClaim :
    (w.storeClaim c).entries e = w.entries e ++ if c.epoch = e then [c] else [] :=
  Keyed.entries_append_singleton

lemma entries_updateClaim {w : World} {e : ℕ} {f : ClaimData → ClaimData} {d : ClaimData}
    (hf : ∀ c, (f c).epoch = c.epoch) (h : w.entries e = [d]) :
    (w.updateClaim e f).entries e = [f d] :=
  Keyed.entries_update_of_singleton hf h

@[simp] lemma queued_note : (w.note o).Queued e k ↔ w.Queued e k := Iff.rfl
@[simp] lemma queued_storeClaim : (w.storeClaim c).Queued e k ↔ w.Queued e k := Iff.rfl
@[simp] lemma queued_updateClaim : (w.updateClaim e' f).Queued e k ↔ w.Queued e k := Iff.rfl
@[simp] lemma queued_removeClaim : (w.removeClaim e').Queued e k ↔ w.Queued e k := Iff.rfl
@[simp] lemma queued_setOnSync : (w.setOnSync b).Queued e k ↔ w.Queued e k := Iff.rfl
@[simp] lemma queued_setLastSavedCount : (w.setLastSavedCount n).Queued e k ↔ w.Queued e k :=
  Iff.rfl

lemma keys_addTask :
    (w.addTask t).schedule.tasks.map Task.key = w.schedule.tasks.map Task.key ++ [t.key] :=
  List.map_append

lemma keys_removeTask : ((w.removeTask t).schedule.tasks.map Task.key).Sublist
    (w.schedule.tasks.map Task.key) := List.Sublist.map _ List.filter_sublist

lemma keys_rescheduleTask :
    (w.rescheduleTask t n).schedule.tasks.map Task.key = w.schedule.tasks.map Task.key :=
  Keyed.map_key_update fun _ => rfl

lemma keys_invalidateTasks : ((w.invalidateTasks e ks).schedule.tasks.map Task.key).Sublist
    (w.schedule.tasks.map Task.key) := List.Sublist.map _ List.filter_sublist

@[simp] lemma queued_addTask :
    (w.addTask t).Queued e k ↔ w.Queued e k ∨ (e = t.epoch ∧ k = t.kind.name) := by
  simp [Queued, addTask, Task.key]

@[simp] lemma queued_removeTask :
    (w.removeTask t).Queued e k ↔ w.Queued e k ∧ ¬(e = t.epoch ∧ k = t.kind.name) := by
  unfold Queued removeTask
  rw [Keyed.mem_keys_erase, Task.key, ne_eq, Prod.mk.injEq]

@[simp] lemma queued_rescheduleTask : (w.rescheduleTask t n).Queued e k ↔ w.Queued e k := by
  rw [Queued, keys_rescheduleTask, Queued]

@[simp] lemma queued_invalidateTasks :
    (w.invalidateTasks e' ks).Queued e k ↔ w.Queued e k ∧ ¬(e = e' ∧ k ∈ ks) := by
  simp only [Queued, invalidateTasks, List.mem_map, List.mem_filter, Task.key, Prod.mk.injEq]
  constructor
  · rintro ⟨t, ⟨ht, hk⟩, rfl, rfl⟩
    refine ⟨⟨t, ht, rfl, rfl⟩, ?_⟩
    rintro ⟨rfl, hmem⟩
    simp [hmem] at hk
  · rintro ⟨⟨t, ht, rfl, rfl⟩, hk⟩
    refine ⟨t, ⟨ht, ?_⟩, rfl, rfl⟩
    rw [decide_eq_false hk]
    rfl

@[simp] lemma log_note : (w.note o).log = o :: w.log := rfl
@[simp] lemma log_addTask : (w.addTask t).log = .scheduling t :: w.log := rfl
@[simp] lemma log_removeTask : (w.removeTask t).log = w.log := rfl
@[simp] lemma log_rescheduleTask : (w.rescheduleTask t n).log = .rescheduling t n :: w.log := rfl
@[simp] lemma log_setOnSync : (w.setOnSync b).log = w.log := rfl
@[simp] lemma log_setLastSavedCount : (w.setLastSavedCount n).log = w.log := rfl
@[simp] lemma log_storeClaim : (w.storeClaim c).log = w.log := rfl
@[simp] lemma log_updateClaim : (w.updateClaim e f).log = w.log := rfl
@[simp] lemma log_removeClaim : (w.removeClaim e).log = w.log := rfl

@[simp] lemma log_updateBlock (target : ScanTarget) (a b : ℕ) (logs : List Log) :
    (w.updateBlock target a b logs).log = .scanned target a b logs :: w.log := rfl
@[simp] lemma log_initializeSync (since a b : ℕ) :
    (w.initializeSync since a b).log = .initializedSync since a b :: w.log := rfl

lemma mem_log_invalidateTasks :
    o ∈ (w.invalidateTasks e ks).log → o ∈ w.log ∨ ∃ n, o = .invalidated e n := by
  unfold invalidateTasks
  dsimp only
  split
  · intro h
    rcases List.mem_cons.mp h with h | h
    · exact .inr ⟨_, h⟩
    · exact .inl h
  · exact .inl

lemma log_subset_invalidateTasks : w.log ⊆ (w.invalidateTasks e ks).log := by
  unfold invalidateTasks
  dsimp only
  split
  · exact List.subset_cons_self _ _
  · exact List.Subset.refl _

/-- Invalidating tasks is no handling of a log. -/
lemma handled_invalidateTasks (target : ScanTarget) (log : Log) :
    .handled target log ∈ (w.invalidateTasks e ks).log ↔ .handled target log ∈ w.log := by
  refine ⟨fun hm => ?_, fun hm => w.log_subset_invalidateTasks e ks hm⟩
  rcases w.mem_log_invalidateTasks _ e ks hm with hm | ⟨n, hn⟩
  · exact hm
  · cases hn

/-! #### The cursors -/

variable (target target' : ScanTarget) (a block : ℕ) (logs : List Log)

@[simp] lemma claim?_updateBlock : (w.updateBlock target a block logs).claim? e = w.claim? e := rfl

@[simp] lemma tasks_updateBlock :
    (w.updateBlock target a block logs).schedule.tasks = w.schedule.tasks := by
  cases target <;> rfl

@[simp] lemma indexingSince_updateBlock :
    (w.updateBlock target a block logs).schedule.indexingSince = w.schedule.indexingSince := by
  cases target <;> rfl

@[simp] lemma lastBlock_updateBlock : (w.updateBlock target a block logs).lastBlock target' =
    if target' = target then some block else w.lastBlock target' := by
  cases target <;> cases target' <;> rfl

end World

/-! ### The rules of the store operations -/

section
variable {ι : Type} {P : Protocol ι World Panic Query.Answer} {i : ι} {s : World} {e : ℕ}

@[simp] lemma wp_load {R : RouteState → World → Prop} :
    TaskStore.load.wp P i R s ↔ R s.schedule s := Iff.rfl

@[simp] lemma wp_addTask {t : Task} {R : Unit → World → Prop} :
    (TaskStore.addTask t).wp P i R s ↔
      P.guar i s (s.addTask t) ∧ P.durable (s.addTask t) ∧ R () (s.addTask t) := Iff.rfl

@[simp] lemma wp_removeTask {t : Task} {R : Unit → World → Prop} :
    (TaskStore.removeTask t).wp P i R s ↔
      P.guar i s (s.removeTask t) ∧ P.durable (s.removeTask t) ∧ R () (s.removeTask t) := Iff.rfl

@[simp] lemma wp_rescheduleTask {t : Task} {n : ℕ} {R : Unit → World → Prop} :
    (TaskStore.rescheduleTask t n).wp P i R s ↔ P.guar i s (s.rescheduleTask t n) ∧
      P.durable (s.rescheduleTask t n) ∧ R () (s.rescheduleTask t n) := Iff.rfl

@[simp] lemma wp_invalidateTasks {ks : List KindName} {R : Unit → World → Prop} :
    (TaskStore.invalidateTasks e ks).wp P i R s ↔ P.guar i s (s.invalidateTasks e ks) ∧
      P.durable (s.invalidateTasks e ks) ∧ R () (s.invalidateTasks e ks) := Iff.rfl

@[simp] lemma wp_isOnSync {R : Bool → World → Prop} :
    TaskStore.isOnSync.wp P i R s ↔ R s.schedule.onSync s := Iff.rfl

@[simp] lemma wp_setOnSync {b : Bool} {R : Unit → World → Prop} :
    (TaskStore.setOnSync b).wp P i R s ↔
      P.guar i s (s.setOnSync b) ∧ P.durable (s.setOnSync b) ∧ R () (s.setOnSync b) := Iff.rfl

@[simp] lemma wp_setLastSavedCount {n : ℕ} {R : Unit → World → Prop} :
    (TaskStore.setLastSavedCount n).wp P i R s ↔ P.guar i s (s.setLastSavedCount n) ∧
      P.durable (s.setLastSavedCount n) ∧ R () (s.setLastSavedCount n) := Iff.rfl

@[simp] lemma wp_updateBlock {target : ScanTarget} {a b : ℕ} {logs : List Log}
    {R : Unit → World → Prop} :
    (TaskStore.updateBlock target a b logs).wp P i R s ↔ P.guar i s (s.updateBlock target a b logs) ∧
      P.durable (s.updateBlock target a b logs) ∧ R () (s.updateBlock target a b logs) := Iff.rfl

@[simp] lemma wp_initializeSync {since a b : ℕ} {R : Unit → World → Prop} :
    (TaskStore.initializeSync since a b).wp P i R s ↔ P.guar i s (s.initializeSync since a b) ∧
      P.durable (s.initializeSync since a b) ∧ R () (s.initializeSync since a b) := Iff.rfl

@[simp] lemma wp_removeClaim {R : Unit → World → Prop} :
    (ClaimStore.remove e).wp P i R s ↔
      P.guar i s (s.removeClaim e) ∧ P.durable (s.removeClaim e) ∧ R () (s.removeClaim e) := Iff.rfl

lemma any_epoch : (s.claims.any fun c => c.epoch = e) = (s.claim? e).isSome := by
  rw [World.claim?, Keyed.lookup, Bool.eq_iff_iff, List.find?_isSome, List.any_eq_true]

@[simp] lemma wp_existsClaim {R : Bool → World → Prop} :
    (ClaimStore.existsClaim e).wp P i R s ↔ R (s.claim? e).isSome s := by
  rw [← any_epoch]
  exact Iff.rfl

@[simp] lemma wp_store {c : ClaimData} {R : Unit → World → Prop} :
    (ClaimStore.store c).wp P i R s ↔
      (s.claim? c.epoch ≠ none → P.inv s ∧ P.fault i (.duplicateClaim c.epoch) s) ∧
      (s.claim? c.epoch = none →
        P.guar i s (s.storeClaim c) ∧ P.durable (s.storeClaim c) ∧ R () (s.storeClaim c)) := by
  have hlen : (Keyed.entries ClaimData.epoch c.epoch s.claims).length > 0 ↔
      s.claim? c.epoch ≠ none := by
    rw [gt_iff_lt, List.length_pos_iff, ne_eq, Keyed.entries_eq_nil_iff]
    rfl
  rw [ClaimStore.store, ClaimStore.loadAll, Prog.wp_bind, Prog.wp_gets, Prog.wp_ite, hlen]
  simp only [ne_eq, not_not, Prog.wp_panic, Prog.wp_modify]

@[simp] lemma wp_update {f : ClaimData → ClaimData} {R : Unit → World → Prop} :
    (ClaimStore.update e f).wp P i R s ↔
      (s.claim? e = none → P.inv s ∧ P.fault i (.cannotUpdateClaim e) s) ∧
      ∀ d, s.claim? e = some d →
        P.guar i s (s.updateClaim e f) ∧ P.durable (s.updateClaim e f) ∧
          R () (s.updateClaim e f) := by
  rw [ClaimStore.update, ClaimStore.loadAll, Prog.wp_bind, Prog.wp_gets]
  show Prog.wp P i (match s.claim? e with | some _ => _ | none => _) R s ↔ _
  cases s.claim? e with
  | none => exact ⟨fun h => ⟨fun _ => h, nofun⟩, fun h => h.1 rfl⟩
  | some d => exact ⟨fun h => ⟨nofun, fun _ _ => h⟩, fun h => h.2 d rfl⟩

/-- Reading the claim of an epoch either panics or returns the stored one. -/
lemma wp_get {R : ClaimData → World → Prop}
    (hnone : s.claim? e = none → P.inv s ∧ P.fault i (.noClaimFound e) s)
    (hmany : s.claim? e ≠ none → P.inv s ∧ P.fault i (.multipleClaims e) s)
    (hsome : ∀ d, s.claim? e = some d → R d s) : (ClaimStore.get e).wp P i R s := by
  have hhead : s.claim? e = (Keyed.entries ClaimData.epoch e s.claims).head? :=
    s.claim?_eq_head?_entries e
  rw [ClaimStore.get, ClaimStore.loadAll, Prog.wp_bind, Prog.wp_gets]
  rcases hc : Keyed.entries ClaimData.epoch e s.claims with _ | ⟨c, _ | ⟨c', l⟩⟩
  · exact hnone (by simp [hhead, hc])
  · exact hsome c (by simp [hhead, hc])
  · exact hmany (by simp [hhead, hc])

lemma wp_getClaim {R : Claim → World → Prop}
    (hnone : s.claim? e = none → P.inv s ∧ P.fault i (.noClaimFound e) s)
    (hmany : s.claim? e ≠ none → P.inv s ∧ P.fault i (.multipleClaims e) s)
    (hsome : ∀ d, s.claim? e = some d → R d.toClaim s) :
    (ClaimStore.getClaim e).wp P i R s := by
  rw [ClaimStore.getClaim, Prog.wp_bind]
  exact wp_get hnone hmany hsome

/-- Role `i` can wait and read the claim of epoch `e` without giving up `J`. -/
structure Reads (P : Protocol ι World Panic Query.Answer) (i : ι) (J : World → Prop) (e : ℕ) :
    Prop extends Patient P i J where
  none : ∀ s, P.inv s → J s → s.claim? e = none → P.fault i (.noClaimFound e) s
  many : ∀ s, P.inv s → J s → P.fault i (.multipleClaims e) s

lemma Reads.get {J : World → Prop} (h : Reads P i J e) {R : ClaimData → World → Prop}
    (hI : P.inv s) (hJ : J s) (hR : ∀ d, s.claim? e = some d → R d s) :
    (ClaimStore.get e).wp P i R s :=
  wp_get (fun hc => ⟨hI, h.none s hI hJ hc⟩) (fun _ => ⟨hI, h.many s hI hJ⟩) hR

lemma Reads.getClaim {J : World → Prop} (h : Reads P i J e) {R : Claim → World → Prop}
    (hI : P.inv s) (hJ : J s) (hR : ∀ d, s.claim? e = some d → R d.toClaim s) :
    (ClaimStore.getClaim e).wp P i R s :=
  wp_getClaim (fun hc => ⟨hI, h.none s hI hJ hc⟩) (fun _ => ⟨hI, h.many s hI hJ⟩) hR

end

end VeaValidator
