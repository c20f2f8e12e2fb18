import VeaValidator.Tasks

/-!
The task dispatcher.

Every pass takes the tasks that are due from the queue, executes them one after the other and
removes a task when `executeTask` says that it is completed.
-/

namespace VeaValidator

open Coop

/-- `str::contains` -/
def contains (s pattern : String) : Bool :=
  s.toList.tails.any fun t => pattern.toList.isPrefixOf t

namespace Dispatcher

def pollInterval : ℕ := 15

/-- The body `execute_task` calls for a task. -/
def body (route : Route) (task : Task) (currentTimestamp : ℕ) : Fallible Unit :=
  match task.kind with
  | .saveSnapshot => Tasks.saveSnapshot
  | .claim _ => Tasks.claim route task.epoch currentTimestamp
  | .validateClaim => Tasks.validateClaim route task.epoch currentTimestamp
  | .challenge => Tasks.challenge route task.epoch
  | .sendSnapshot => Tasks.sendSnapshot route task.epoch
  | .startVerification => Tasks.startVerification route task.epoch
  | .verifySnapshot => Tasks.verifySnapshot route task.epoch
  | .executeRelay relay => Tasks.executeRelay relay
  | .withdrawDeposit => Tasks.withdrawDeposit task.epoch

/-- The delay of the branch `execute_task` takes for an error of a body, when that branch
reschedules the task. -/
def rescheduleDelay : TaskKind → String → Option ℕ
  | .validateClaim, e => if e = "EpochNotFinalized" then some (30 * 60) else none
  | .challenge, e =>
    if e = "Insufficient funds" then some (30 * 60)
    else if e = "VerificationStarted" then some (20 * 60)
    else if contains e "Invalid claim" then some (30 * 60)
    else none
  | .startVerification, e => if contains e "Invalid claim" then some (30 * 60) else none
  | .verifySnapshot, e => if contains e "Invalid claim" then some (30 * 60) else none
  | .executeRelay _, e => if e = "RootNotConfirmed" then some (60 * 60) else some (30 * 60)
  | _, _ => none

def executeTask (route : Route) (task : Task) (currentTimestamp : ℕ) : M Bool := do
  let result ← (body route task currentTimestamp).run
  info (.returned task result)
  match result with
  | .ok _ => pure true
  | .error e =>
    match rescheduleDelay task.kind e with
    | some delay => do
      TaskStore.rescheduleTask task (u64 (currentTimestamp + delay))
      pure true
    | none => pure false

/-- One turn of the loop over the ready tasks. -/
def processTask (route : Route) (now : ℕ) (task : Task) : M Unit := do
  info (.executing task)
  let success ← executeTask route task now
  if success then do
    info (.completed task)
    TaskStore.removeTask task
  else
    pure ()

def processPending (route : Route) : M Unit := do
  if !(← TaskStore.isOnSync) then
    pure ()
  else do
    let state ← TaskStore.load
    match ← Prog.ask (A := Query.Answer) (.blockByNumber .outbox .latest) with
    | .ok (some block) =>
      let now := block.timestamp
      forM (state.tasks.filter fun t => now ≥ t.executeAfter) (processTask route now)
    | _ => pure ()

/-- The first `n` turns of the loop that never ends. -/
def run (route : Route) : ℕ → M Unit
  | 0 => pure ()
  | n + 1 => do
    processPending route
    sleep pollInterval
    run route n

/-! ### One task -/

/-- What a turn of the loop writes once the body has returned `result`. -/
def finish (now : ℕ) (task : Task) (result : Except String Unit) (w : World) : World :=
  match result with
  | .ok _ => ((w.note (.returned task result)).note (.completed task)).removeTask task
  | .error e =>
    match rescheduleDelay task.kind e with
    | some delay =>
      (((w.note (.returned task result)).rescheduleTask task (u64 (now + delay))).note
        (.completed task)).removeTask task
    | none => w.note (.returned task result)

section
variable (now : ℕ) (task : Task) (result : Except String Unit) (w : World) (e : ℕ)

/-- Whether `executeTask` reports a task as completed. -/
def completes : Except String Unit → Bool
  | .ok _ => true
  | .error e => (rescheduleDelay task.kind e).isSome

@[simp] lemma claim?_finish : (finish now task result w).claim? e = w.claim? e := by
  unfold finish
  rcases result with err | ⟨⟩
  · rcases hdelay : rescheduleDelay task.kind err with _ | delay
    · simp [hdelay]
    · simp [hdelay]
  · simp

@[simp] lemma queued_finish (k : KindName) : (finish now task result w).Queued e k ↔
    w.Queued e k ∧ ¬(completes task result ∧ e = task.epoch ∧ k = task.kind.name) := by
  unfold finish completes
  rcases result with err | ⟨⟩
  · rcases hdelay : rescheduleDelay task.kind err with _ | delay
    · simp [hdelay]
    · simp [hdelay]
  · simp

/-- A reschedule leaves its line in the log. -/
lemma log_finish : (finish now task result w).log =
    match result with
    | .ok _ => .completed task :: .returned task result :: w.log
    | .error e =>
      match rescheduleDelay task.kind e with
      | some delay => .completed task :: .rescheduling task (u64 (now + delay)) ::
          .returned task result :: w.log
      | none => .returned task result :: w.log := by
  unfold finish
  rcases result with err | ⟨⟩
  · rcases hdelay : rescheduleDelay task.kind err with _ | delay
    · simp [hdelay]
    · simp [hdelay]
  · simp

lemma log_subset_finish : w.log ⊆ (finish now task result w).log := by
  intro o ho
  rw [log_finish]
  rcases result with err | ⟨⟩
  · rcases hdelay : rescheduleDelay task.kind err with _ | delay
    · simp [hdelay, ho]
    · simp [hdelay, ho]
  · simp [ho]

/-- The end of a turn is no handling of a log. -/
lemma handled_finish (target : ScanTarget) (log : Log) :
    .handled target log ∈ (finish now task result w).log ↔ .handled target log ∈ w.log := by
  rw [log_finish]
  rcases result with err | ⟨⟩
  · rcases hdelay : rescheduleDelay task.kind err with _ | delay
    · simp [hdelay]
    · simp [hdelay]
  · simp

/-- A task that is rescheduled is removed in the same turn. -/
lemma tasks_finish : (finish now task result w).schedule.tasks =
    if completes task result then Keyed.erase Task.key task.key w.schedule.tasks
    else w.schedule.tasks := by
  unfold finish completes
  rcases result with err | ⟨⟩
  · rcases hdelay : rescheduleDelay task.kind err with _ | delay
    · simp only [hdelay, Option.isSome_none, Bool.false_eq_true, if_false, World.note]
    · simp only [hdelay, Option.isSome_some, if_true]
      exact Keyed.erase_update fun _ => rfl
  · rfl

lemma keys_finish : ((finish now task result w).schedule.tasks.map Task.key).Sublist
    (w.schedule.tasks.map Task.key) := by
  rw [tasks_finish]
  split
  · exact List.Sublist.map _ List.filter_sublist
  · exact List.Sublist.refl _

end

/-- The lines a turn of the loop logs. -/
def Logged : Obs → Prop
  | .executing _ | .returned _ _ | .completed _ => True
  | _ => False

section
variable {ι : Type} {P : Protocol ι World Panic Query.Answer} {i : ι} {route : Route} {now : ℕ}
  {task : Task} {s : World} {J : World → Prop}

/-- The bodies that cannot do without the claim of their epoch. -/
def readsClaim : KindName → Bool
  | .validateClaim | .challenge | .sendSnapshot | .startVerification | .verifySnapshot => true
  | _ => false

/-- What the body of a task that writes nothing may send; `C` is what is known of the claims
it reads. -/
def SentBy (task : Task) (C : Claim → Prop) (w : World) : Tx → Prop
  | .saveSnapshot => task.kind = .saveSnapshot
  | .claim e _ _ => e = task.epoch ∧ task.kind.name = .claim
  | .challenge e c _ => e = task.epoch ∧ task.kind = .challenge ∧ C c
  | .sendSnapshot e _ _ => e = task.epoch ∧ task.kind = .sendSnapshot
  | .startVerification e c => e = task.epoch ∧ task.kind = .startVerification ∧
      ∃ d, w.claim? e = some d ∧ d.challenger = 0 ∧ c = d.toClaim
  | .verifySnapshot e c => e = task.epoch ∧ task.kind = .verifySnapshot ∧
      ∃ d, w.claim? e = some d ∧ d.challenger = 0 ∧ c = d.toClaim
  | .executeTransaction _ relay => task.kind = .executeRelay relay
  | .withdrawClaimDeposit _ _ | .withdrawChallengeDeposit _ _ => False

/-- The bodies of the tasks other than `ValidateClaim` and `WithdrawDeposit`. -/
lemma keeps_body (h : Patient P i J) {C : Claim → Prop}
    (hreads : readsClaim task.kind.name → Reads P i J task.epoch)
    (hv : task.kind ≠ .validateClaim) (hw : task.kind ≠ .withdrawDeposit)
    (hroute : ∀ s, P.inv s → J s → P.fault i (.unknownRoute route.name) s)
    (hread : ∀ s d, P.inv s → J s → s.claim? task.epoch = some d → C d.toClaim)
    (hsend : ∀ tx s, SentBy task C s tx → P.inv s → J s → P.issue i (.send tx) s) :
    Prog.Keeps P i J (body route task now).run := by
  unfold body
  cases hk : task.kind with
  | saveSnapshot => exact Tasks.keeps_saveSnapshot h fun s => hsend _ s hk
  | claim root => exact Tasks.keeps_claim h fun _ _ s => hsend _ s ⟨rfl, by rw [hk]; rfl⟩
  | validateClaim => exact absurd hk hv
  | challenge =>
    have hr := hreads (by rw [hk]; rfl)
    exact Tasks.keeps_challenge hr hread fun c v s hc => hsend _ s ⟨rfl, hk, hc⟩
  | sendSnapshot =>
    have hr := hreads (by rw [hk]; rfl)
    exact Tasks.keeps_sendSnapshot hr hroute fun _ _ s => hsend _ s ⟨rfl, hk⟩
  | startVerification =>
    have hr := hreads (by rw [hk]; rfl)
    exact Tasks.keeps_sendUnlessChallenged hr fun s d hI hJ hd hc =>
      hsend (.startVerification _ _) s ⟨rfl, hk, d, hd, hc, rfl⟩ hI hJ
  | verifySnapshot =>
    have hr := hreads (by rw [hk]; rfl)
    exact Tasks.keeps_sendUnlessChallenged hr fun s d hI hJ hd hc =>
      hsend (.verifySnapshot _ _) s ⟨rfl, hk, d, hd, hc, rfl⟩ hI hJ
  | executeRelay relay => exact Tasks.keeps_executeRelay h fun _ s => hsend _ s hk
  | withdrawDeposit => exact absurd hk hw

/-- The task a verdict leads to, from the claimed root and the inbox's. -/
def verdict (claimed root : Word) : TaskKind :=
  if claimed = root then .startVerification else .challenge

lemma verdict_eq (claimed root : Word) :
    verdict claimed root = .startVerification ∨ verdict claimed root = .challenge := by
  unfold verdict
  split
  · exact .inl rfl
  · exact .inr rfl

/-- The time that task is set to, in a pass at `now`. -/
def verdictTime (route : Route) (now : ℕ) (claimed root : Word) : ℕ :=
  if claimed = root then u64 (now + route.settings.startVerificationDelay) else now

/-- Role `i` may run the body of a task and keeps `J` meanwhile; `C` is what is known of the
claims it reads, and `D` of the root it has read while it waits for the inbox's. -/
structure Executor (P : Protocol ι World Panic Query.Answer) (i : ι) (J : World → Prop)
    (route : Route) (task : Task) (C : Claim → Prop) (D : Word → World → Prop) : Prop
    extends Patient P i J where
  reads : readsClaim task.kind.name ∨ task.kind = .withdrawDeposit → Reads P i J task.epoch
  unknownRoute : ∀ s, P.inv s → J s → P.fault i (.unknownRoute route.name) s
  undetermined : task.kind = .withdrawDeposit → ∀ s d, P.inv s → J s →
    s.claim? task.epoch = some d → partyOf d.honest = .none →
    P.fault i (.honestNotDetermined task.epoch) s
  claim : ∀ s d, P.inv s → J s → s.claim? task.epoch = some d → C d.toClaim
  root : ∀ s d, P.inv s → J s → s.claim? task.epoch = some d → D d.stateRoot s
  rootStays : ∀ root s t, D root s → J s → P.rely i s t → P.inv t → D root t
  send : ∀ tx s, SentBy task C s tx → P.inv s → J s → P.issue i (.send tx) s
  withdraw : ∀ c s, P.inv s → J s → P.issue i (.send (.withdrawClaimDeposit task.epoch c)) s ∧
    P.issue i (.send (.withdrawChallengeDeposit task.epoch c)) s

/-- A role that may send anything needs to know nothing of the claims it reads. -/
lemma Executor.free (h : Patient P i J) (hissue : ∀ q s, P.issue i q s)
    (hreads : readsClaim task.kind.name ∨ task.kind = .withdrawDeposit → Reads P i J task.epoch)
    (hroute : ∀ s, P.fault i (.unknownRoute route.name) s)
    (hhonest : ∀ s, P.fault i (.honestNotDetermined task.epoch) s) :
    Executor P i J route task (fun _ => True) fun _ _ => True :=
  { h with
    reads := hreads
    unknownRoute := fun s _ _ => hroute s
    undetermined := fun _ s _ _ _ _ _ => hhonest s
    claim := fun _ _ _ _ _ => trivial
    root := fun _ _ _ _ _ => trivial
    rootStays := fun _ _ _ _ _ _ _ => trivial
    send := fun tx s _ _ _ => hissue (.send tx) s
    withdraw := fun _ s _ _ => ⟨hissue _ s, hissue _ s⟩ }

/-- **The rule of a body.** It writes nothing, or it adds the task of a verdict, or it removes
the claim it has withdrawn; and it returns right after its one write. -/
lemma wp_body_at {C : Claim → Prop} {D : Word → World → Prop} {R : Except String Unit → World → Prop}
    (h : Executor P i J route task C D) (hI : P.inv s) (hJ : J s)
    (hquiet : ∀ result t, P.inv t → J t → (task.kind = .validateClaim → result ≠ .ok ()) →
      R result t)
    (hverdict : task.kind = .validateClaim → ∀ claimed root t, P.inv t → J t → D claimed t →
      P.answer i (.snapshots task.epoch) (.ok root) t →
      (TaskStore.addTask ⟨task.epoch, verdictTime route now claimed root,
        verdict claimed root⟩).wp P i (fun _ => R (.ok ())) t)
    (hremove : task.kind = .withdrawDeposit → ∀ t, P.inv t → J t →
      (ClaimStore.remove task.epoch).wp P i (fun _ => R (.ok ())) t) :
    (body route task now).run.wp P i R s := by
  by_cases hv : task.kind = .validateClaim
  · have hbody : body route task now = Tasks.validateClaim route task.epoch now := by
      rw [body, hv]
    have hreads : Reads P i J task.epoch := h.reads (.inl (by rw [hv]; rfl))
    rw [hbody]
    refine Tasks.wp_validateClaim hreads hI hJ (fun err t hIt hJt => ?_) h.root h.rootStays
      (fun root t hIt hJt hD ha => ?_) fun root root' t hne hIt hJt hD ha => ?_
    · exact hquiet _ t hIt hJt fun _ => by simp
    · have hw := hverdict hv root root t hIt hJt hD ha
      rwa [verdict, verdictTime, if_pos rfl, if_pos rfl] at hw
    · have hw := hverdict hv root root' t hIt hJt hD ha
      rwa [verdict, verdictTime, if_neg hne, if_neg hne] at hw
  by_cases hw : task.kind = .withdrawDeposit
  · have hbody : body route task now = Tasks.withdrawDeposit task.epoch := by
      rw [body, hw]
    rw [hbody]
    exact Tasks.wp_withdrawDeposit (h.reads (.inr hw)) hI hJ
      (fun err t hIt hJt => hquiet _ t hIt hJt fun hk => absurd hk hv) (h.undetermined hw)
      h.withdraw (hremove hw)
  · have hkeeps : Prog.Keeps P i J (body route task now).run :=
      keeps_body h.toPatient (fun hr => h.reads (.inl hr)) hv hw h.unknownRoute h.claim h.send
    refine Prog.wp_mono ?_ (hkeeps s hI hJ)
    exact fun result t ht => hquiet result t ht.1 ht.2 fun hk => absurd hk hv

/-- The same where the time of the task does not matter. -/
lemma wp_body {C : Claim → Prop} {D : Word → World → Prop} {R : Except String Unit → World → Prop}
    (h : Executor P i J route task C D) (hI : P.inv s) (hJ : J s)
    (hquiet : ∀ result t, P.inv t → J t → (task.kind = .validateClaim → result ≠ .ok ()) →
      R result t)
    (hverdict : task.kind = .validateClaim → ∀ claimed root n t, P.inv t → J t → D claimed t →
      P.answer i (.snapshots task.epoch) (.ok root) t →
      (TaskStore.addTask ⟨task.epoch, n, verdict claimed root⟩).wp P i (fun _ => R (.ok ())) t)
    (hremove : task.kind = .withdrawDeposit → ∀ t, P.inv t → J t →
      (ClaimStore.remove task.epoch).wp P i (fun _ => R (.ok ())) t) :
    (body route task now).run.wp P i R s :=
  wp_body_at h hI hJ hquiet (fun hk claimed root t => hverdict hk claimed root _ t) hremove

/-- Role `i` may do the writes of a turn that are not its body's. -/
structure Clerk (P : Protocol ι World Panic Query.Answer) (i : ι) : Prop where
  note : ∀ o s, Logged o → P.durable s → P.guar i s (s.note o) ∧ P.durable (s.note o)
  reschedule : ∀ t n s, P.durable s →
    P.guar i s (s.rescheduleTask t n) ∧ P.durable (s.rescheduleTask t n)
  remove : ∀ t s, P.durable s → P.guar i s (s.removeTask t) ∧ P.durable (s.removeTask t)

/-- A turn of the loop is its first line and its body, followed by the writes of `finish` with
nobody in between. -/
lemma wp_turn {R : World → Prop}
    (hstart : P.guar i s (s.note (.executing task)) ∧ P.durable (s.note (.executing task)))
    (hnote : ∀ o u, Logged o → (∀ t, o ≠ .executing t) → P.durable u →
      P.guar i u (u.note o) ∧ P.durable (u.note o))
    (hreschedule : ∀ n u, P.durable u →
      P.guar i u (u.rescheduleTask task n) ∧ P.durable (u.rescheduleTask task n))
    (hremove : ∀ u, P.durable u → P.guar i u (u.removeTask task) ∧ P.durable (u.removeTask task))
    (hbody : (body route task now).run.wp P i
      (fun result t => P.durable t ∧ R (finish now task result t)) (s.note (.executing task))) :
    (processTask route now task).wp P i (fun _ => R) s := by
  rw [processTask, executeTask, Prog.wp_bind, wp_info]
  refine ⟨hstart.1, hstart.2, ?_⟩
  simp only [bind_assoc]
  rw [Prog.wp_bind]
  refine Prog.wp_mono ?_ hbody
  rintro result t ⟨hdt, hR⟩
  obtain ⟨hg1, hd1⟩ := hnote (.returned task result) t trivial (fun _ ht => by cases ht) hdt
  rw [Prog.wp_bind, wp_info]
  refine ⟨hg1, hd1, ?_⟩
  have hdone : ∀ u, P.durable u → R ((u.note (.completed task)).removeTask task) →
      ((do info (.completed task); TaskStore.removeTask task) : M Unit).wp P i (fun _ => R) u := by
    intro u hu hRu
    obtain ⟨hg2, hd2⟩ := hnote (.completed task) u trivial (fun _ ht => by cases ht) hu
    obtain ⟨hg3, hd3⟩ := hremove _ hd2
    rw [Prog.wp_bind, wp_info]
    exact ⟨hg2, hd2, hg3, hd3, hRu⟩
  rcases result with e | ⟨⟩
  · unfold finish at hR
    rcases hdelay : rescheduleDelay task.kind e with _ | delay
    · simp only [hdelay] at hR ⊢
      exact hR
    · simp only [hdelay] at hR ⊢
      obtain ⟨hg4, hd4⟩ := hreschedule (u64 (now + delay)) _ hd1
      rw [bind_assoc, Prog.wp_bind, wp_rescheduleTask]
      exact ⟨hg4, hd4, hdone _ hd4 hR⟩
  · exact hdone _ hd1 hR

/-- The same for a role that may do these writes anywhere. -/
lemma wp_processTask (h : Clerk P i) {R : World → Prop} (hd : P.durable s)
    (hbody : (body route task now).run.wp P i
      (fun result t => P.durable t ∧ R (finish now task result t)) (s.note (.executing task))) :
    (processTask route now task).wp P i (fun _ => R) s :=
  wp_turn (h.note _ s trivial hd) (fun o u ho _ => h.note o u ho) (h.reschedule task) (h.remove task)
    hbody

/-- **The rule of a pass.** It is made on sync, and `L` is what is known of the tasks it still has
to execute with the clock of its block. -/
lemma wp_processPending_onSync (h : Patient P i fun _ => True) {L : ℕ → List Task → World → Prop}
    (hready : s.schedule.onSync = true → ∀ block t, P.rely i s t → P.inv t →
      P.answer i (.blockByNumber .outbox .latest) (.ok (some block)) t →
      L block.timestamp (s.schedule.tasks.filter fun x => block.timestamp ≥ x.executeAfter) t)
    (hstep : ∀ now task l s, P.inv s → L now (task :: l) s →
      (processTask route now task).wp P i (fun _ t => P.inv t ∧ L now l t) s) (hI : P.inv s) :
    (processPending route).wp P i (fun _ => P.inv) s := by
  rw [processPending, Prog.wp_bind, wp_isOnSync, Prog.wp_ite]
  refine ⟨fun _ => hI, fun hsync => ?_⟩
  rw [Prog.wp_bind, wp_load, Prog.wp_bind, Prog.wp_ask]
  refine ⟨hI, h.issue _ s trivial hI trivial, fun t ht hIt a ha => ?_⟩
  rcases a with e | _ | block
  · exact hIt
  · exact hIt
  · refine Prog.wp_mono (fun _ u hu => hu.1) (Prog.wp_forM (fun task l u hu =>
      hstep block.timestamp task l u hu.1 hu.2) ⟨hIt, ?_⟩)
    exact hready (by simpa using hsync) block t ht hIt ha

/-- The same where it does not matter that the route is on sync. -/
lemma wp_processPending (h : Patient P i fun _ => True) {L : ℕ → List Task → World → Prop}
    (hready : ∀ block t, P.rely i s t → P.inv t →
      P.answer i (.blockByNumber .outbox .latest) (.ok (some block)) t →
      L block.timestamp (s.schedule.tasks.filter fun x => block.timestamp ≥ x.executeAfter) t)
    (hstep : ∀ now task l s, P.inv s → L now (task :: l) s →
      (processTask route now task).wp P i (fun _ t => P.inv t ∧ L now l t) s) (hI : P.inv s) :
    (processPending route).wp P i (fun _ => P.inv) s :=
  wp_processPending_onSync h (fun _ => hready) hstep hI

/-- The loop of the dispatcher is as good as its passes. -/
lemma wp_run_of_passes (h : Patient P i fun _ => True)
    (hpass : ∀ s, P.inv s → (processPending route).wp P i (fun _ => P.inv) s) (n : ℕ)
    (hI : P.inv s) : (run route n).wp P i (fun _ => P.inv) s := by
  induction n generalizing s with
  | zero => exact hI
  | succ n ih =>
    rw [run, Prog.wp_bind]
    refine Prog.wp_mono (fun _ t hIt => ?_) (hpass s hI)
    rw [Prog.wp_bind, wp_sleep]
    exact ⟨hIt, h.issue _ t trivial hIt trivial, fun u _ hIu _ _ => ih hIu⟩

/-- **The rule of the dispatcher.** What is known of the tasks a pass still has to execute has
to survive the others and every turn. -/
lemma wp_run (h : Patient P i fun _ => True) {L : List Task → World → Prop}
    (hload : ∀ s, P.inv s → L s.schedule.tasks s)
    (hrely : ∀ l s t, L l s → P.rely i s t → P.inv t → L l t)
    (hfilter : ∀ l p s, L l s → L (l.filter p) s)
    (hstep : ∀ now task l s, P.inv s → L (task :: l) s →
      (processTask route now task).wp P i (fun _ t => P.inv t ∧ L l t) s) (n : ℕ)
    (hI : P.inv s) : (run route n).wp P i (fun _ => P.inv) s := by
  refine wp_run_of_passes h (fun s hI => ?_) n hI
  refine wp_processPending (L := fun _ => L) h (fun block t ht hIt _ => ?_) hstep hI
  exact hfilter _ _ t (hrely _ s t (hload s hI) ht hIt)

end

end Dispatcher

end VeaValidator
