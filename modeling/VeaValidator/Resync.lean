import VeaValidator.Interleaving
import Mathlib.Logic.Relation

/-!
Synchronising from the middle of the bridge.

The indexer starts at the two blocks `initializeIndexer` has found, and the logs of the two
chains reach it in whatever order its scans alternate. This file says what becomes of an
epoch whose `Claimed` log comes after this validator's own `SnapshotSent`, and of one whose
`Claimed` log lies before the first block.
-/

namespace VeaValidator

open Coop

namespace Resync

/-! ### Claims after a relay task -/

/-- The transactions of the inbox chain and their receipts. -/
structure Ledger where
  signer : Word → Option Address
  receipt : Word → Option Receipt

/-- The answers of nodes that follow the ledger, when they do not fail. -/
def Ledger.Answers (L : Ledger) : (q : Query) → q.Answer → World → Prop
  | .transactionByHash hash, .ok tx, _ => tx = L.signer hash
  | .transactionReceipt hash, .ok receipt, _ => receipt = L.receipt hash
  | _, _, _ => True

/-- A `SnapshotSent` log of epoch `e` from a transaction of this validator that sends
something to L1. -/
def OwnSent (route : Route) (L : Ledger) (e : ℕ) : ScanTarget × Log → Prop
  | (.inbox, log) => log.topics.head? = some sigSnapshotSent ∧ Indexer.snapshotEpoch log = some e ∧
      ∃ hash receipt, log.transactionHash = some hash ∧
        L.signer hash = some route.walletAddress ∧ L.receipt hash = some receipt ∧
        Indexer.firstL2ToL1Tx receipt.logs ≠ none
  | (.outbox, _) => False

/-- The indexer alone: nobody writes while it waits. -/
abbrev alone (L : Ledger) : Protocol Unit World Panic Query.Answer :=
  .disturbed Eq L.Answers fun _ _ => True

/-- What the queue says of the logs `done` before the claim of `e` is stored. -/
def Traced (route : Route) (L : Ledger) (e : ℕ) (done : List (ScanTarget × Log)) (w : World) :
    Prop :=
  w.claim? e = none → ((∃ k, w.Queued e k) ↔ ∃ l ∈ done, OwnSent route L e l)

variable {route : Route} {L : Ledger} {e e' : ℕ} {done : List (ScanTarget × Log)} {s t u : World}

lemma Traced.of_same (h : Traced route L e done s) (hclaim : t.claim? e = s.claim? e)
    (hqueue : ∀ k, t.Queued e k ↔ s.Queued e k) : Traced route L e done t := by
  intro hnone
  rw [hclaim] at hnone
  simp only [hqueue]
  exact h hnone

lemma traced_snoc {l : ScanTarget × Log} (hl : ¬OwnSent route L e l)
    (h : Traced route L e done s) : Traced route L e (done ++ [l]) s := by
  intro hnone
  rw [h hnone]
  simp [hl]

lemma traced_addTask {task : Task} (h : Traced route L e done s)
    (hc : task.epoch = e → s.claim? e ≠ none) : Traced route L e done (s.addTask task) := by
  by_cases he : task.epoch = e
  · exact fun hnone => absurd hnone (hc he)
  · exact h.of_same rfl fun k => by simp [Ne.symm he]

lemma traced_storeClaim {c : ClaimData} (h : Traced route L e done s) :
    Traced route L e done (s.storeClaim c) := by
  intro hnone
  rw [World.claim?_storeClaim, Option.or_eq_none_iff] at hnone
  exact h hnone.1

lemma traced_updateClaim {f : ClaimData → ClaimData} (hf : ∀ c, (f c).epoch = c.epoch)
    (h : Traced route L e done s) : Traced route L e done (s.updateClaim e' f) := by
  intro hnone
  exact h ((World.claim?_updateClaim_eq_none s e e' f hf).mp hnone)

lemma stored_updateClaim {f : ClaimData → ClaimData} {d : ClaimData}
    (hf : ∀ c, (f c).epoch = c.epoch) (hd : s.claim? e' = some d) (he : e' = e) :
    (s.updateClaim e' f).claim? e ≠ none := by
  subst he
  rw [World.stored_updateClaim s e' e' f hf, hd]
  exact Option.some_ne_none d

lemma traced_invalidateTasks {ks : List KindName} (h : Traced route L e done s)
    (hc : e' = e → s.claim? e ≠ none) : Traced route L e done (s.invalidateTasks e' ks) := by
  by_cases he : e' = e
  · exact fun hnone => absurd hnone (hc he)
  · exact h.of_same rfl fun k => by simp [Ne.symm he]

lemma patient {J : World → Prop} : Patient (alone L) () J where
  rely _ _ hJ ht _ := ht ▸ hJ
  issue _ _ _ _ _ := trivial
  fault _ _ _ _ _ := trivial

lemma traced_missingClaim {ts : ℕ} (h : Traced route L e done s) :
    (Indexer.missingClaim route e' ts).wp (alone L) () (fun _ => Traced route L e done) s :=
  Indexer.wp_missingClaim (fun _ => h) fun _ => ⟨trivial, trivial⟩

/-- No outbox log adds a task to an epoch without a claim. -/
lemma traced_act {log : Log} {event : Event} (h : Traced route L e done s) :
    (Indexer.act route log event).wp (alone L) () (fun _ => Traced route L e done) s := by
  have hp : Patient (alone L) () (Traced route L e done) := patient
  cases event with
  | claimed e' claimer root =>
    refine Indexer.wp_claimed hp trivial h (fun t _ ht _ => ht) fun ts t _ _ ht _ => ?_
    rw [Prog.wp_bind, wp_store]
    refine ⟨fun _ => ⟨trivial, trivial⟩, fun hnone => ⟨trivial, trivial, trivial, trivial, ?_⟩⟩
    refine traced_addTask (traced_storeClaim ht) fun he => ?_
    subst he
    simp [ClaimData.fresh]
  | verificationStarted e' =>
    refine Indexer.wp_verificationStarted hp trivial h (fun _ ts t _ _ ht => traced_missingClaim ht)
      fun _ ts n t _ _ _ ht => ?_
    rw [Prog.wp_bind, wp_update]
    refine ⟨fun _ => ⟨trivial, trivial⟩, fun d hd => ⟨trivial, trivial, trivial, trivial, trivial,
      trivial, ?_⟩⟩
    have hstored : e' = e →
        (t.updateClaim e' (ClaimData.startVerification (u32 ts) (u32 n))).claim? e ≠ none :=
      stored_updateClaim (fun _ => rfl) hd
    exact traced_addTask (traced_invalidateTasks (traced_updateClaim (fun _ => rfl) ht) hstored)
      hstored
  | challenged e' challenger =>
    have hp' : Patient (alone L) () fun t => Traced route L e done t ∧
      (e' = e → t.claim? e ≠ none) := patient
    refine Indexer.wp_challenged hp hp' trivial h (fun _ ts t _ _ ht => traced_missingClaim ht)
      fun _ => ?_
    rw [Prog.wp_bind, wp_update]
    refine ⟨fun _ => ⟨trivial, trivial⟩, fun d hd => ⟨trivial, trivial, trivial, trivial, trivial,
      ?_, fun ts u _ _ hu => ⟨trivial, trivial, traced_addTask hu.1 hu.2⟩⟩⟩
    have hstored : e' = e →
        (s.updateClaim e' (ClaimData.challengeBy challenger)).claim? e ≠ none :=
      stored_updateClaim (fun _ => rfl) hd
    exact ⟨traced_invalidateTasks (traced_updateClaim (fun _ => rfl) h) hstored, hstored⟩
  | verified e' =>
    refine Indexer.wp_verified (D := fun _ _ => True) hp trivial h (fun _ _ _ => trivial)
      (fun _ _ _ _ _ => trivial) (fun _ _ _ _ _ _ _ => trivial)
      (fun ts t _ _ ht _ => traced_missingClaim ht) fun ts d root t _ _ _ ht _ => ?_
    rw [Prog.wp_bind, wp_update]
    refine ⟨fun _ => ⟨trivial, trivial⟩, fun d' hd' => ⟨trivial, trivial, trivial, trivial, trivial,
      trivial, ?_⟩⟩
    have hstored : e' = e → (t.updateClaim e' (ClaimData.settle
        (if d.stateRoot = root then "Claimer" else "Challenger"))).claim? e ≠ none :=
      stored_updateClaim (fun _ => rfl) hd'
    exact traced_addTask (traced_invalidateTasks (traced_updateClaim (fun _ => rfl) ht) hstored)
      hstored

/-- Only an own `SnapshotSent` log does, and it always does unless one has before. -/
lemma traced_handleSnapshotSent {log : Log} (h : Traced route L e done s)
    (hsig : log.topics.head? = some sigSnapshotSent) :
    (Indexer.handleSnapshotSent route log).wp (alone L) ()
      (fun _ => Traced route L e (done ++ [(.inbox, log)])) s := by
  have hp : Patient (alone L) () fun t => t = s := patient
  refine Indexer.wp_handleSnapshotSent hp trivial rfl ?_ ?_
  · rintro t - rfl hskip
    by_cases hown : OwnSent route L e (.inbox, log)
    · obtain ⟨-, hepoch, hash, receipt, hhash, hsigner, hreceipt, htx⟩ := id hown
      have hq : t.Queued e .executeRelay := by
        rcases hskip with hnone | ⟨e', he', hq⟩ | hforeign
        · rw [Indexer.snapshotEpoch, hnone] at hepoch
          cases hepoch
        · obtain rfl : e' = e := Option.some.inj (he'.symm.trans hepoch)
          exact hq
        · rcases hforeign with hnone | ⟨hash', hhash', hother⟩
          · rw [hnone] at hhash
            cases hhash
          obtain rfl : hash' = hash := Option.some.inj (hhash'.symm.trans hhash)
          rcases hother with ⟨signer, u, hne, ha⟩ | ⟨receipt', u, ha, hnone⟩
          · have ha' : some signer = L.signer hash' := ha
            exact absurd (Option.some.inj (ha'.trans hsigner)) hne
          · have ha' : some receipt' = L.receipt hash' := ha
            obtain rfl := Option.some.inj (ha'.trans hreceipt)
            exact absurd hnone htx
      intro _
      exact ⟨fun _ => ⟨_, by simp, hown⟩, fun _ => ⟨_, hq⟩⟩
    · exact traced_snoc hown h
  · rintro e' task t hepoch - hfrom htask - - rfl
    rw [wp_addTask]
    refine ⟨trivial, trivial, ?_⟩
    by_cases he : e' = e
    · subst he
      obtain ⟨hash, _, receipt, _, tx, hhash, hsigner, hreceipt, htx⟩ := hfrom
      have hown : OwnSent route L e' (.inbox, log) :=
        ⟨hsig, hepoch, hash, receipt, hhash, hsigner.symm, hreceipt.symm, by simp [htx]⟩
      intro _
      exact ⟨fun _ => ⟨_, by simp, hown⟩, fun _ => ⟨task.kind.name, by simp [htask]⟩⟩
    · have hother : ¬OwnSent route L e (.inbox, log) := by
        rintro ⟨-, hepoch', -⟩
        exact he (Option.some.inj (hepoch.symm.trans hepoch'))
      refine traced_snoc hother (traced_addTask h fun h' => ?_)
      exact absurd (htask.symm.trans h') he

lemma traced_handle {target : ScanTarget} {log : Log} (h : Traced route L e done s) :
    (Indexer.handle route target log).wp (alone L) ()
      (fun _ => Traced route L e (done ++ [(target, log)])) s := by
  have hp : Patient (alone L) () (Traced route L e done) := patient
  refine Indexer.wp_handle (D := Traced route L e (done ++ [(target, log)])) ?_
    fun t ht => ⟨trivial, trivial, ht.of_same rfl fun _ => Iff.rfl⟩
  cases target with
  | inbox =>
    refine Indexer.wp_dispatchInboxEvent (fun hsig => ?_) (traced_handleSnapshotSent h)
      fun hsig => ?_
    · exact traced_snoc (fun hown => hsig hown.1) h
    · have hother : ¬OwnSent route L e (.inbox, log) := fun hown =>
        absurd (Option.some.inj (hsig.symm.trans hown.1)) (by decide)
      exact Indexer.wp_handleSnapshotSaved hp trivial h (traced_snoc hother h)
        fun n => ⟨trivial, trivial, traced_snoc hother (h.of_same rfl fun _ => Iff.rfl)⟩
  | outbox =>
    have hother : ¬OwnSent route L e (.outbox, log) := id
    refine Indexer.wp_dispatchOutboxEvent hp trivial h (fun _ => traced_snoc hother h)
      fun event _ => ?_
    exact Prog.wp_mono (fun _ t ht => traced_snoc hother ht) (traced_act h)

/-- After a delivery from empty files. -/
lemma traced_deliver {pre : List (ScanTarget × Log)} (hs : Empty s)
    (hrun : (Indexer.deliver route pre).Runs Eq L.Answers s (.ok ()) t) :
    Traced route L e pre t := by
  have hstart : ∃ done, pre = done ++ pre ∧ Traced route L e done s := by
    refine ⟨[], rfl, fun _ => ?_⟩
    simp [World.Queued, hs.1]
  have hw : (Indexer.deliver route pre).wp (alone L) () (fun _ t => True ∧
      ∃ done, pre = done ++ [] ∧ Traced route L e done t) s := by
    refine Indexer.wp_deliver (P := alone L)
      (L := fun l t => ∃ done, pre = done ++ l ∧ Traced route L e done t)
      (fun _ _ => trivial) ?_ ?_ trivial hstart
    · rintro l s t hL rfl -
      exact hL
    · rintro target log l s - ⟨done, hpre, h⟩
      exact Prog.wp_mono (fun _ t ht => ⟨trivial, done ++ [(target, log)], by simp [hpre], ht⟩)
        (traced_handle h)
  obtain ⟨-, done, hpre, h⟩ := (Prog.wp_runs_disturbed hw hrun).1 () rfl
  rw [hpre, List.append_nil]
  exact h

/-- **A claim is lost exactly after an own relay.** From empty files, whatever was handled
before in whatever order, handling the `Claimed` log of an epoch without a stored claim stores
the claim and queues its `ValidateClaim` task if and only if no `SnapshotSent` log of the epoch
that this validator has sent was handled before. -/
theorem claimed_kept_iff (route : Route) (L : Ledger) {pre : List (ScanTarget × Log)} {log : Log}
    {e : ℕ} {claimer : Address} {root : Word} {s t u : World} (hs : Empty s)
    (hpre : (Indexer.deliver route pre).Runs Eq L.Answers s (.ok ()) t)
    (hev : log.event? = some (.claimed e claimer root)) (hnone : t.claim? e = none)
    (hrun : (Indexer.handle route .outbox log).Runs Eq L.Answers t (.ok ()) u) :
    ((∃ ts, u.claim? e = some (ClaimData.fresh e root claimer ts)) ∧ u.Queued e .validateClaim) ↔
      ∀ l ∈ pre, ¬OwnSent route L e l := by
  have htraced : (∃ k, t.Queued e k) ↔ ∃ l ∈ pre, OwnSent route L e l :=
    traced_deliver hs hpre hnone
  have hempty : (∀ l ∈ pre, ¬OwnSent route L e l) ↔ ¬∃ k, t.Queued e k := by
    rw [htraced]
    simp
  have hp : Patient (alone L) () fun u => u = t := patient
  have hw : (Indexer.handle route .outbox log).wp (alone L) () (fun _ u =>
      (((∃ ts, u.claim? e = some (ClaimData.fresh e root claimer ts)) ∧
        u.Queued e .validateClaim) ↔ ¬∃ k, t.Queued e k)) t := by
    refine Indexer.wp_handle (D := fun u => (((∃ ts, u.claim? e = some (ClaimData.fresh e root
      claimer ts)) ∧ u.Queued e .validateClaim) ↔ ¬∃ k, t.Queued e k)) ?_
      fun u hu => ⟨trivial, trivial, hu⟩
    refine Indexer.wp_dispatchOutboxEvent hp trivial rfl (fun h => ?_) fun event h => ?_
    · rw [hev] at h
      cases h
    obtain rfl := Option.some.inj (hev.symm.trans h)
    refine Indexer.wp_claimed hp trivial rfl ?_ ?_
    · rintro u - rfl ⟨task, htask, rfl⟩
      have hq : ∃ k, u.Queued task.epoch k := ⟨_, World.queued_of_mem htask⟩
      refine ⟨fun h => ?_, fun h => absurd hq h⟩
      obtain ⟨⟨ts, hts⟩, -⟩ := h
      rw [hnone] at hts
      cases hts
    · rintro ts u - - rfl hno
      rw [Prog.wp_bind, wp_store]
      refine ⟨fun _ => ⟨trivial, trivial⟩, fun _ => ⟨trivial, trivial, trivial, trivial, ?_⟩⟩
      refine iff_of_true ⟨⟨u32 ts, ?_⟩, by simp [TaskKind.name]⟩ ?_
      · simp [hnone, ClaimData.fresh]
      · rintro ⟨k, hk⟩
        obtain ⟨task, htask, hkey⟩ := List.mem_map.mp hk
        exact hno task htask (congrArg Prod.fst hkey)
  rw [hempty]
  exact (Prog.wp_runs_disturbed hw hrun).1 () rfl

/-- Every transaction is this validator's, and sends something to L1. -/
def sampleLedger : Ledger where
  signer _ := some 3
  receipt _ := some ⟨some 2, [⟨Indexer.arbSys, some ⟨1, 2, 0, 0, 1, 1, 20, 0, []⟩⟩]⟩

def sampleNode : (q : Query) → q.Answer
  | .transactionByHash hash => .ok (sampleLedger.signer hash)
  | .transactionReceipt hash => .ok (sampleLedger.receipt hash)
  | q => Sample.node 100 0 q

lemma answers_sampleNode (q : Query) (w : World) : sampleLedger.Answers q (sampleNode q) w := by
  cases q <;> trivial

def snapshotSent (e block : ℕ) : ScanTarget × Log :=
  (.inbox, Sample.log [sigSnapshotSent, BitVec.ofNat 256 e] 0 block)

/-- The files after a `SnapshotSent` log of epoch `e`, and then after a claim of epoch 5. -/
def afterSent (e : ℕ) : World :=
  ((Indexer.deliver Sample.route [snapshotSent e 2]).eval sampleNode {}).2
def afterClaimed (e : ℕ) : World :=
  ((Indexer.handle Sample.route .outbox (Sample.claimed 5 1 3)).eval sampleNode (afterSent e)).2

lemma runs_afterSent (e : ℕ) (h : ((Indexer.deliver Sample.route [snapshotSent e 2]).eval
      sampleNode {}).1 = .ok ()) :
    (Indexer.deliver Sample.route [snapshotSent e 2]).Runs Eq
      sampleLedger.Answers {} (.ok ()) (afterSent e) := by
  rw [← h]
  exact Prog.runs_eval (fun _ => rfl) answers_sampleNode _ _

lemma runs_afterClaimed (e : ℕ) (h : ((Indexer.handle Sample.route .outbox
      (Sample.claimed 5 1 3)).eval sampleNode (afterSent e)).1 = .ok ()) :
    (Indexer.handle Sample.route .outbox (Sample.claimed 5 1 3)).Runs Eq
      sampleLedger.Answers (afterSent e) (.ok ()) (afterClaimed e) := by
  rw [← h]
  exact Prog.runs_eval (fun _ => rfl) answers_sampleNode _ _

lemma event?_claimed : (Sample.claimed 5 1 3).event? = some (.claimed 5 9 1) := by decide

/-- A `SnapshotSent` log of another epoch does no harm. -/
theorem claimed_kept_iff_sample : (afterClaimed 4).Queued 5 .validateClaim :=
  ((claimed_kept_iff Sample.route sampleLedger ⟨rfl, rfl, rfl⟩
    (runs_afterSent 4 (by decide +kernel)) event?_claimed (by decide +kernel)
    (runs_afterClaimed 4 (by decide +kernel))).mpr (by
      intro l hl hown
      obtain rfl := List.mem_singleton.mp hl
      exact absurd hown.2.1 (by decide))).2

/-- After an own one of its epoch the claim is lost. -/
theorem claimed_lost : ∃ pre log s t u claimer root, Empty s ∧
    (Indexer.deliver Sample.route pre).Runs Eq sampleLedger.Answers s (.ok ()) t ∧
    log.event? = some (.claimed 5 claimer root) ∧ t.claim? 5 = none ∧
    (Indexer.handle Sample.route .outbox log).Runs Eq sampleLedger.Answers
      t (.ok ()) u ∧
    u.claim? 5 = none ∧ ¬u.Queued 5 .validateClaim :=
  ⟨[snapshotSent 5 2], Sample.claimed 5 1 3, {}, afterSent 5, afterClaimed 5, 9, 1,
    ⟨rfl, rfl, rfl⟩, runs_afterSent 5 (by decide +kernel), event?_claimed, by decide +kernel,
    runs_afterClaimed 5 (by decide +kernel), by decide +kernel, by decide +kernel⟩

/-! ### Epochs claimed before the first block -/

/-- The time of a log, in a chain whose blocks have these timestamps. -/
def logTime (blockTs : ℕ → ℕ) (log : Log) : Option ℕ :=
  log.blockTimestamp.or (log.blockNumber.map blockTs)

/-- Nodes that return the blocks of that chain. -/
def Timed (blockTs : ℕ → ℕ) : (q : Query) → q.Answer → World → Prop
  | .blockByNumber .outbox (.number n), answer, _ => answer = .ok (some ⟨n, blockTs n⟩)
  | _, _, _ => True

/-- The end of the time in which an event without a claim is dropped. -/
def graceEnd (route : Route) (w : World) : ℕ :=
  u64 (w.schedule.indexingSince.getD 0 + route.settings.syncLookbackSecs)

/-- What happens while logs are dropped: the others go on, and the indexer says that it has
handled a log. -/
def Passed (rely : World → World → Prop) : World → World → Prop :=
  Relation.ReflTransGen fun s t => rely s t ∨ ∃ log, t = s.note (.handled .outbox log)

section
variable {blockTs : ℕ → ℕ} {rely : World → World → Prop} {logs : List Log}

variable (route blockTs rely logs) in
/-- The indexer among others; its one panic is over a log that comes too late. -/
abbrev among (e : ℕ) (s₀ : World) : Protocol Unit World Panic Query.Answer :=
  .disturbed rely (Timed blockTs) fun p _ => p = .claimNotFound e ∧
    ∃ log ∈ logs, ∃ ts, logTime blockTs log = some ts ∧ ¬ts < graceEnd route s₀

variable (route rely) in
/-- Nothing has been done about `e` since `s₀`. -/
structure Waiting (e : ℕ) (s₀ t : World) : Prop where
  missing : t.claim? e = none
  grace : graceEnd route t = graceEnd route s₀
  passed : Passed rely s₀ t

lemma Waiting.others (hrely : ∀ s t, rely s t → s.claim? e = none → t.claim? e = none ∧
      t.schedule.indexingSince = s.schedule.indexingSince) (h : Waiting route rely e s t)
    (ht : rely t u) : Waiting route rely e s u := by
  obtain ⟨hnone, hsince⟩ := hrely t u ht h.missing
  refine ⟨hnone, ?_, h.passed.tail (.inl ht)⟩
  rw [← h.grace, graceEnd, graceEnd, hsince]

lemma Waiting.note {log : Log} (h : Waiting route rely e s t) :
    Waiting route rely e s (t.note (.handled .outbox log)) :=
  ⟨h.missing, h.grace, h.passed.tail (.inr ⟨log, rfl⟩)⟩

/-- The time of a log is the one of its block. -/
lemma wp_getLogTimestamp {log : Log} {ts : ℕ} {J : World → Prop} {s₀ : World}
    (hts : logTime blockTs log = some ts) (hrely : ∀ s t, J s → rely s t → J t) (hJ : J s) :
    (Indexer.getLogTimestamp log .outbox).wp (among route blockTs rely logs e s₀) ()
      (fun n t => n = ts ∧ J t) s := by
  unfold logTime at hts
  unfold Indexer.getLogTimestamp
  cases htime : log.blockTimestamp with
  | some n =>
    rw [htime, Option.some_or, Option.some.injEq] at hts
    exact ⟨hts, hJ⟩
  | none =>
    rw [htime, Option.none_or, Option.map_eq_some_iff] at hts
    obtain ⟨n, hn, rfl⟩ := hts
    rw [hn]
    refine ⟨trivial, trivial, fun t ht _ a ha => ?_⟩
    have ha' : a = .ok (some ⟨n, blockTs n⟩) := ha
    rw [ha']
    exact ⟨rfl, hrely s t hJ ht⟩

/-- An event other than `Claimed` whose claim is not stored is dropped in time. -/
lemma wp_drop {log : Log} {event : Event} {ts : ℕ} {s₀ : World}
    (hrely : ∀ s t, rely s t → s.claim? e = none → t.claim? e = none ∧
      t.schedule.indexingSince = s.schedule.indexingSince)
    (hlog : log ∈ logs) (hts : logTime blockTs log = some ts) (he : event.epoch = e)
    (hclaimed : ∀ claimer root, event ≠ .claimed e claimer root)
    (hw : Waiting route rely e s₀ s) :
    (Indexer.act route log event).wp (among route blockTs rely logs e s₀) ()
      (fun _ t => Waiting route rely e s₀ t ∧ ts < graceEnd route s₀) s := by
  have hstay : ∀ s t, Waiting route rely e s₀ s → rely s t → Waiting route rely e s₀ t :=
    fun s t h ht => h.others hrely ht
  have hmissing : ∀ n t, n = ts ∧ Waiting route rely e s₀ t →
      (Indexer.missingClaim route e n).wp (among route blockTs rely logs e s₀) ()
        (fun _ t => Waiting route rely e s₀ t ∧ ts < graceEnd route s₀) t := by
    rintro n t ⟨rfl, ht⟩
    have hgrace := ht.grace
    rw [graceEnd] at hgrace
    refine Indexer.wp_missingClaim (fun hlt => ⟨ht, ?_⟩)
      fun hlt => ⟨trivial, rfl, log, hlog, n, hts, ?_⟩
    · rwa [← hgrace]
    · rwa [← hgrace]
  cases event with
  | claimed e' claimer root =>
    subst he
    exact absurd rfl (hclaimed claimer root)
  | verificationStarted e' =>
    have he' : e' = e := he
    subst he'
    rw [Indexer.act, Indexer.verificationStarted, Prog.wp_bind, wp_existsClaim, hw.missing]
    show Prog.wp _ _ (Indexer.getLogTimestamp log .outbox >>= _) _ _
    rw [Prog.wp_bind]
    exact Prog.wp_mono hmissing (wp_getLogTimestamp hts hstay hw)
  | challenged e' challenger =>
    have he' : e' = e := he
    subst he'
    rw [Indexer.act, Indexer.challenged, Prog.wp_bind, wp_existsClaim, hw.missing]
    show Prog.wp _ _ (Indexer.getLogTimestamp log .outbox >>= _) _ _
    rw [Prog.wp_bind]
    exact Prog.wp_mono hmissing (wp_getLogTimestamp hts hstay hw)
  | verified e' =>
    have he' : e' = e := he
    subst he'
    rw [Indexer.act, Indexer.verified, Prog.wp_bind]
    refine Prog.wp_mono (fun n t ht => ?_) (wp_getLogTimestamp hts hstay hw)
    rw [Prog.wp_bind, wp_existsClaim, ht.2.missing]
    exact hmissing n t ht

/-- **An old epoch is dropped in time, and only then.** Of the later logs of an epoch whose
`Claimed` log was never handled, in any order and number and whatever others do meanwhile, the
handlers drop all without touching the files if and only if every one of them is from before
the end of the grace period. -/
theorem old_epoch_dropped_iff (route : Route) (blockTs : ℕ → ℕ) {r : Except Panic Unit}
    (hrely : ∀ s t, rely s t → s.claim? e = none → t.claim? e = none ∧
      t.schedule.indexingSince = s.schedule.indexingSince)
    (hlogs : ∀ log ∈ logs, ∃ event, log.event? = some event ∧ event.epoch = e ∧
      ∀ claimer root, event ≠ .claimed e claimer root)
    (htime : ∀ log ∈ logs, logTime blockTs log ≠ none) (hnone : s.claim? e = none)
    (hrun : (Indexer.deliver route (logs.map fun log => (.outbox, log))).Runs rely
      (Timed blockTs) s r t) :
    (r = .ok () ∧ Passed rely s t) ↔
      ∀ log ∈ logs, ∀ ts, logTime blockTs log = some ts → ts < graceEnd route s := by
  have hw : (Indexer.deliver route (logs.map fun log => (.outbox, log))).wp
      (among route blockTs rely logs e s) () (fun _ t => True ∧ Waiting route rely e s t ∧
        (∀ x ∈ ([] : List (ScanTarget × Log)), x.1 = .outbox ∧ x.2 ∈ logs) ∧
        ∀ log ∈ logs, (.outbox, log) ∉ ([] : List (ScanTarget × Log)) →
          ∀ ts, logTime blockTs log = some ts → ts < graceEnd route s) s := by
    refine Indexer.wp_deliver (P := among route blockTs rely logs e s) (L := fun l t =>
      Waiting route rely e s t ∧ (∀ x ∈ l, x.1 = .outbox ∧ x.2 ∈ logs) ∧
        ∀ log ∈ logs, (.outbox, log) ∉ l →
          ∀ ts, logTime blockTs log = some ts → ts < graceEnd route s)
      (fun _ _ => trivial) ?_ ?_ trivial ⟨⟨hnone, rfl, .refl⟩, ?_, ?_⟩
    · rintro l u v ⟨hwait, hrest⟩ hrel -
      exact ⟨hwait.others hrely hrel, hrest⟩
    · rintro target log l u - ⟨hwait, hall, hdone⟩
      obtain ⟨htarget, hlog⟩ : target = .outbox ∧ log ∈ logs := hall _ List.mem_cons_self
      obtain ⟨event, hev, he, hclaimed⟩ := hlogs log hlog
      obtain ⟨ts, hts⟩ := Option.ne_none_iff_exists'.mp (htime log hlog)
      have heq := Indexer.dispatchOutboxEvent_eq route log
      simp only [hev] at heq
      rw [Indexer.handle, htarget, Indexer.dispatch, heq, Prog.wp_bind]
      refine Prog.wp_mono ?_ (wp_drop hrely hlog hts he hclaimed hwait)
      rintro _ v ⟨hwait', hlt⟩
      refine ⟨trivial, trivial, trivial, hwait'.note,
        fun x hx => hall x (List.mem_cons_of_mem _ hx), fun log' hlog' hnot ts' hts' => ?_⟩
      by_cases heq' : log' = log
      · subst heq'
        obtain rfl : ts = ts' := Option.some.inj (hts.symm.trans hts')
        exact hlt
      · exact hdone log' hlog' (by simp [heq', hnot]) ts' hts'
    · simp
    · exact fun log hlog hnot => absurd (List.mem_map_of_mem hlog) hnot
  have hend := Prog.wp_runs_disturbed hw hrun
  constructor
  · rintro ⟨rfl, -⟩ log hlog
    exact (hend.1 () rfl).2.2.2 log hlog List.not_mem_nil
  · intro hall
    cases r with
    | ok _ => exact ⟨rfl, (hend.1 () rfl).2.1.passed⟩
    | error p =>
      obtain ⟨-, log, hlog, ts, hts, hlate⟩ := hend.2 p rfl
      exact absurd (hall log hlog ts hts) hlate

end

/-- The files of a route that indexes since 10, so that the grace period ends at 1010. -/
def sampleSince : World := { schedule := { indexingSince := some 10 } }

/-- The last two events of epoch 5, the claim of which was never handled. -/
def oldLogs (block : ℕ) : List Log := [Sample.challenged 5 4, Sample.verified 5 block]

def afterOld (block : ℕ) : Except Panic Unit × World :=
  (Indexer.deliver Sample.route ((oldLogs block).map fun log => (.outbox, log))).eval
    (Sample.node 100 0) sampleSince

lemma timed_node (q : Query) (w : World) : Timed (10 * ·) q (Sample.node 100 0 q) w := by
  cases q with
  | blockByNumber p n =>
    cases p <;> cases n <;> trivial
  | _ => trivial

lemma runs_afterOld (block : ℕ) :
    (Indexer.deliver Sample.route ((oldLogs block).map fun log => (.outbox, log))).Runs Eq
      (Timed (10 * ·)) sampleSince (afterOld block).1 (afterOld block).2 :=
  Prog.runs_eval (fun _ => rfl) timed_node _ _

lemma event?_oldLogs {block : ℕ} {log : Log} (hlog : log ∈ oldLogs block) : ∃ event,
    log.event? = some event ∧ event.epoch = 5 ∧
      ∀ claimer root, event ≠ .claimed 5 claimer root := by
  rcases List.mem_pair.mp hlog with rfl | rfl
  · exact ⟨.challenged 5 8, by decide, rfl, nofun⟩
  · exact ⟨.verified 5, rfl, rfl, nofun⟩

lemma logTime_oldLogs {block : ℕ} {log : Log} (hlog : log ∈ oldLogs block) :
    logTime (10 * ·) log = some 40 ∨ logTime (10 * ·) log = some (10 * block) := by
  rcases List.mem_pair.mp hlog with rfl | rfl
  · exact .inl rfl
  · exact .inr rfl

/-- Two events in time are dropped. -/
theorem old_epoch_dropped_iff_sample : (afterOld 5).1 = .ok () :=
  ((old_epoch_dropped_iff Sample.route (10 * ·) (fun _ _ h hnone => h ▸ ⟨hnone, rfl⟩)
    (fun _ => event?_oldLogs) (fun _ hlog => by
      rcases logTime_oldLogs hlog with h | h <;> rw [h] <;> exact Option.some_ne_none _)
    rfl (runs_afterOld 5)).mpr (fun _ hlog ts hts => by
      have hgrace : graceEnd Sample.route sampleSince = 1010 := by decide
      rcases logTime_oldLogs hlog with h | h <;> rw [h, Option.some.injEq] at hts <;> omega)).1

/-- A claim that is verified after the grace period stops the route. -/
theorem old_epoch_crashes : ∃ (logs : List Log) (s t : World), s.claim? 5 = none ∧
    (∀ log ∈ logs, ∃ event, log.event? = some event ∧ event.epoch = 5 ∧
      ∀ claimer root, event ≠ .claimed 5 claimer root) ∧
    (Indexer.deliver Sample.route (logs.map fun log => (.outbox, log))).Runs Eq
      (Timed (10 * ·)) s (.error (.claimNotFound 5)) t := by
  refine ⟨oldLogs 200, sampleSince, (afterOld 200).2, rfl, fun _ => event?_oldLogs, ?_⟩
  have hpanic : (afterOld 200).1 = .error (.claimNotFound 5) := by decide +kernel
  rw [← hpanic]
  exact runs_afterOld 200

end Resync

end VeaValidator
