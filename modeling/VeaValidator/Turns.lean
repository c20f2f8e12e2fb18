import VeaValidator.Pages

/-!
The handlers turn pages.

Where the nodes answer, the handler of a log does to the page of its epoch what `Deed.turn` says, and
nothing to any other page. The stores it can be stopped in are the ones after each of its writes. So
a run over some logs turns every page by the logs of its epoch, and a run that is stopped leaves
pages on which these logs have been stopped.
-/

namespace VeaValidator

open Coop

namespace Replay

/-- No two stored claims are of one epoch. -/
def Distinct (w : World) : Prop := (w.claims.map ClaimData.epoch).Nodup

/-- The end of the time from which events without a claim are dropped. -/
def graceEnd (route : Route) (w : World) : ℕ :=
  u64 (w.schedule.indexingSince.getD 0 + route.settings.syncLookbackSecs)

variable {route : Route} {o : (q : Query) → q.Answer} {log : Log} {d : Deed} {s t u w : World}
  {e : ℕ} {c : ClaimData}

/-! ### What a handler does, with the nodes' answers at hand -/

lemma like_getLogTimestamp {α : Type} {g : ℕ → M α} {ts : ℕ} (h : logTime o log = some ts) :
    Prog.Like o w (Indexer.getLogTimestamp log .outbox >>= g) (g ts) := by
  unfold logTime at h
  unfold Indexer.getLogTimestamp
  cases htime : log.blockTimestamp with
  | some n =>
    rw [htime] at h
    obtain rfl := Option.some.inj h
    exact .refl
  | none =>
    rw [htime] at h
    cases hblock : log.blockNumber with
    | none =>
      rw [hblock] at h
      cases h
    | some n =>
      rw [hblock] at h
      dsimp only at h
      split at h
      · next block hblock =>
        obtain rfl := Option.some.inj h
        have hlike : Prog.Like o w ((do
            let answer ← Prog.ask (A := Query.Answer) (.blockByNumber .outbox (.number n))
            let block ← expectOk "Failed to fetch block for timestamp" answer
            let block ← expectSome "Block not found" block
            pure block.timestamp) >>= g) ((do
            let block ← expectOk "Failed to fetch block for timestamp"
              (o (.blockByNumber .outbox (.number n)))
            let block ← expectSome "Block not found" block
            pure block.timestamp) >>= g) := ⟨rfl, rfl⟩
        rw [hblock] at hlike
        exact hlike
      · cases h

/-! ### The tasks of an epoch -/

lemma tasked_page : (w.page e).Tasked ↔ ∃ task ∈ w.schedule.tasks, task.epoch = e := Iff.rfl

lemma any_epoch_tasks : (w.schedule.tasks.any fun task => task.epoch = e) = true ↔
    (w.page e).Tasked := by
  rw [tasked_page]
  simp

lemma opening_page_eq_none : (w.page e).opening = none ↔ w.claim? e = none := Option.map_eq_none_iff

lemma page_congr (hclaim : t.claim? e = s.claim? e) (htasks : ∀ task, task.epoch = e →
    (task ∈ t.schedule.tasks ↔ task ∈ s.schedule.tasks)) : t.page e = s.page e := by
  refine Page.ext (by rw [World.page, World.page, hclaim]) (funext fun k => ?_)
  cases k with
  | queued task =>
    exact propext ⟨fun h => ⟨(htasks task h.2).mp h.1, h.2⟩, fun h => ⟨(htasks task h.2).mpr h.1, h.2⟩⟩
  | verification => simp only [World.page, hclaim]
  | challenger => simp only [World.page, hclaim]
  | honest => simp only [World.page, hclaim]

/-! ### The page after each write -/

lemma mem_tasks_addTask {task task' : Task} :
    task ∈ (w.addTask task').schedule.tasks ↔ task ∈ w.schedule.tasks ∨ task = task' := by
  rw [World.addTask, List.mem_append, List.mem_singleton]

lemma mem_tasks_invalidateTasks {task : Task} {ks : List KindName} :
    task ∈ (w.invalidateTasks e ks).schedule.tasks ↔
      task ∈ w.schedule.tasks ∧ ¬(task.epoch = e ∧ task.kind.name ∈ ks) := by
  show task ∈ w.schedule.tasks.filter _ ↔ _
  rw [List.mem_filter, Bool.not_eq_true', decide_eq_false_iff_not]

/-- Nothing is written of another epoch. -/
lemma page_storeClaim_of_ne (h : c.epoch ≠ e) : (w.storeClaim c).page e = w.page e := by
  refine page_congr ?_ fun _ _ => Iff.rfl
  rw [World.claim?_storeClaim, if_neg h, Option.or_none]

lemma page_updateClaim_of_ne {f : ClaimData → ClaimData} {e' : ℕ} (hf : ∀ c, (f c).epoch = c.epoch)
    (h : e' ≠ e) : (w.updateClaim e' f).page e = w.page e := by
  refine page_congr ?_ fun _ _ => Iff.rfl
  rw [World.claim?_updateClaim _ _ _ _ hf, if_neg h.symm]

lemma page_addTask_of_ne {task : Task} (h : task.epoch ≠ e) : (w.addTask task).page e = w.page e := by
  refine page_congr rfl fun task' he => ?_
  rw [mem_tasks_addTask, or_iff_left]
  rintro rfl
  exact h he

lemma page_invalidateTasks_of_ne {ks : List KindName} {e' : ℕ} (h : e' ≠ e) :
    (w.invalidateTasks e' ks).page e = w.page e := by
  refine page_congr rfl fun task he => ?_
  rw [mem_tasks_invalidateTasks, and_iff_left]
  rintro ⟨he', -⟩
  exact h (he'.symm.trans he)

/-- The page of a claim that has just been stored. -/
lemma page_stored {claimer : Address} {root r : Word} {time block : ℕ} (hnone : w.claim? e = none)
    (hfree : ¬(w.page e).Tasked) :
    (w.storeClaim (ClaimData.fresh e root claimer (u32 time))).page e =
      Deed.stored ⟨.claimed e claimer root, time, block, r⟩ := by
  have hclaim : (w.storeClaim (ClaimData.fresh e root claimer (u32 time))).claim? e =
      some (ClaimData.fresh e root claimer (u32 time)) := by
    rw [World.claim?_storeClaim, hnone, Option.none_or]
    exact if_pos rfl
  refine Page.ext (by rw [World.page, hclaim]; rfl) (funext fun k => ?_)
  cases k with
  | queued task =>
    refine propext ⟨fun h => hfree ⟨task, h⟩, False.elim⟩
  | verification => simp only [World.page, hclaim]; rfl
  | challenger => simp only [World.page, hclaim]; rfl
  | honest => simp only [World.page, hclaim]; rfl

/-- The first task is queued. -/
lemma page_opened (hs : s.page d.epoch = d.stored) :
    (s.addTask (d.task route)).page d.epoch = d.opened route := by
  have hopen : (s.addTask (d.task route)).page d.epoch = { s.page d.epoch with
      slots := ((s.addTask (d.task route)).page d.epoch).slots } := rfl
  rw [hopen, hs]
  refine Page.ext rfl (funext fun k => ?_)
  have hslot : ∀ k, (s.page d.epoch).slots k = d.stored.slots k := fun k => by rw [hs]
  cases k with
  | queued task =>
    have hfree : ¬(task ∈ s.schedule.tasks ∧ task.epoch = d.epoch) := fun h => by
      have hq := hslot (.queued task)
      exact of_eq_true (hq.symm.trans (eq_true h))
    refine propext ⟨fun h => ?_, ?_⟩
    · rcases mem_tasks_addTask.mp h.1 with hmem | rfl
      · exact absurd ⟨hmem, h.2⟩ hfree
      · rfl
    · rintro rfl
      exact ⟨mem_tasks_addTask.mpr (.inr rfl), d.epoch_task route⟩
  | verification => exact hslot .verification
  | challenger => exact hslot .challenger
  | honest => exact hslot .honest

/-! #### A later log -/

lemma opening_change : (d.change c).opening = c.opening := by
  obtain ⟨event, time, block, root⟩ := d
  cases event <;> rfl

/-- The page of an epoch whose claim a later log has changed, as far as its fields go. -/
lemma slots_change (hs : s.claim? e = some c) (ht : t.claim? e = some (d.change c))
    (hq : ∀ task, (t.page e).slots (.queued task) = (d.patch route c.stateRoot).apply
      (s.page e).slots (.queued task)) :
    t.page e = Deed.fill route c.stateRoot [d] (s.page e) := by
  refine Page.ext ?_ (funext fun k => ?_)
  · show (t.claim? e).map ClaimData.opening = (s.claim? e).map ClaimData.opening
    rw [hs, ht, Option.map_some, Option.map_some, opening_change]
  cases k with
  | queued task => exact hq task
  | verification =>
    show _ = (d.patch route c.stateRoot .verification).getD ((s.page e).slots .verification)
    simp only [World.page, hs, ht]
    obtain ⟨event, time, block, root⟩ := d
    cases event <;> rfl
  | challenger =>
    show _ = (d.patch route c.stateRoot .challenger).getD ((s.page e).slots .challenger)
    simp only [World.page, hs, ht]
    obtain ⟨event, time, block, root⟩ := d
    cases event <;> rfl
  | honest =>
    show _ = (d.patch route c.stateRoot .honest).getD ((s.page e).slots .honest)
    simp only [World.page, hs, ht]
    obtain ⟨event, time, block, root⟩ := d
    cases event <;> rfl

/-- The same in the middle of the handler, when some of the tasks are as they were. -/
lemma between_change (hd : ¬d.Claims) (hs : s.claim? e = some c) (ht : t.claim? e = some (d.change c))
    (hq : ∀ task, d.patch route c.stateRoot (.queued task) = none →
      (t.page e).slots (.queued task) = (s.page e).slots (.queued task)) :
    Deed.Between route d (s.page e) (t.page e) := by
  have hp : (s.page e).opening = some c.opening := by
    show (s.claim? e).map ClaimData.opening = _
    rw [hs, Option.map_some]
  have hopen : (t.page e).opening = some c.opening := by
    show (t.claim? e).map ClaimData.opening = _
    rw [ht, Option.map_some, opening_change]
  refine .partly hd hp hopen fun k hk => ?_
  cases k with
  | queued task => exact hq task hk
  | verification =>
    simp only [World.page, hs, ht]
    obtain ⟨event, time, block, root⟩ := d
    cases event <;> first | rfl | cases hk
  | challenger =>
    simp only [World.page, hs, ht]
    obtain ⟨event, time, block, root⟩ := d
    cases event <;> first | rfl | cases hk
  | honest =>
    simp only [World.page, hs, ht]
    obtain ⟨event, time, block, root⟩ := d
    cases event <;> first | rfl | cases hk

lemma patch_queued (hd : ¬d.Claims) (claimed : Word) (task : Task) :
    d.patch route claimed (.queued task) = if task = d.task route then some True
      else if task.epoch = d.epoch ∧ task.kind.name ∈ d.withdraws then some False else none :=
  if_neg hd

/-- The world after the writes of a later log whose claim is stored. -/
def amend (route : Route) (d : Deed) (f : ClaimData → ClaimData) (w : World) : World :=
  ((w.updateClaim d.epoch f).invalidateTasks d.epoch d.withdraws).addTask (d.task route)

section
variable {f : ClaimData → ClaimData}

lemma claim?_updateClaim_self (hf : ∀ c, (f c).epoch = c.epoch) (hc : w.claim? e = some c)
    (hfc : f c = d.change c) : (w.updateClaim e f).claim? e = some (d.change c) := by
  rw [World.claim?_updateClaim _ _ _ _ hf, if_pos rfl, hc, Option.map_some, hfc]

lemma page_amend (hd : ¬d.Claims) (hf : ∀ c, (f c).epoch = c.epoch)
    (hc : w.claim? d.epoch = some c) (hfc : f c = d.change c) :
    (amend route d f w).page d.epoch = Deed.fill route c.stateRoot [d] (w.page d.epoch) := by
  refine slots_change hc (claim?_updateClaim_self hf hc hfc) fun task => ?_
  show (task ∈ (amend route d f w).schedule.tasks ∧ task.epoch = d.epoch) =
    (d.patch route c.stateRoot (.queued task)).getD (task ∈ w.schedule.tasks ∧ task.epoch = d.epoch)
  rw [patch_queued hd, amend, mem_tasks_addTask, mem_tasks_invalidateTasks]
  by_cases htask : task = d.task route
  · rw [if_pos htask, Option.getD_some]
    exact eq_true ⟨.inr htask, htask ▸ d.epoch_task route⟩
  · rw [if_neg htask]
    by_cases hw : task.epoch = d.epoch ∧ task.kind.name ∈ d.withdraws
    · rw [if_pos hw, Option.getD_some]
      exact eq_false fun h => (h.1.resolve_right htask).2 hw
    · rw [if_neg hw, Option.getD_none]
      exact propext ⟨fun h => ⟨(h.1.resolve_right htask).1, h.2⟩, fun h => ⟨.inl ⟨h.1, hw⟩, h.2⟩⟩

/-- The writes of a later log, one after the other. -/
lemma between_amend (hd : ¬d.Claims) (hf : ∀ c, (f c).epoch = c.epoch)
    (hc : w.claim? d.epoch = some c) (hfc : f c = d.change c)
    (ht : t = w ∨ t = w.updateClaim d.epoch f ∨
      t = (w.updateClaim d.epoch f).invalidateTasks d.epoch d.withdraws ∨ t = amend route d f w) :
    Deed.Between route d (w.page d.epoch) (t.page d.epoch) := by
  have hclaim := claim?_updateClaim_self hf hc hfc
  rcases ht with rfl | rfl | rfl | rfl
  · exact .same
  · exact between_change hd hc hclaim fun _ _ => rfl
  · refine between_change hd hc hclaim fun task hk => ?_
    rw [patch_queued hd] at hk
    show (task ∈ ((w.updateClaim d.epoch f).invalidateTasks _ _).schedule.tasks ∧ _) = (_ ∧ _)
    rw [mem_tasks_invalidateTasks]
    have hw : ¬(task.epoch = d.epoch ∧ task.kind.name ∈ d.withdraws) := by
      intro hw
      rw [if_pos hw] at hk
      split at hk <;> cases hk
    exact propext ⟨fun h => ⟨h.1.1, h.2⟩, fun h => ⟨⟨h.1, hw⟩, h.2⟩⟩
  · refine between_change hd hc hclaim fun task hk => ?_
    have hpage : (amend route d f w).page d.epoch = _ := page_amend hd hf hc hfc
    have hslots : ((amend route d f w).page d.epoch).slots (.queued task) = _ :=
      congrArg (Page.slots · (.queued task)) hpage
    exact hslots.trans (Patch.apply_of_none hk)

end

/-! ### The handlers -/

/-- What a handler leaves in the files besides the claim and the tasks of its epoch. -/
structure Frame (e : ℕ) (w u : World) : Prop where
  distinct : Distinct u
  since : u.schedule.indexingSince = w.schedule.indexingSince
  pages : ∀ e' ≠ e, u.page e' = w.page e'

lemma Frame.refl (hw : Distinct w) : Frame e w w := ⟨hw, rfl, fun _ _ => rfl⟩

lemma Frame.note {ob : Obs} (h : Frame e w u) : Frame e w (u.note ob) := ⟨h.distinct, h.since, h.pages⟩

lemma Frame.addTask {task : Task} (h : Frame e w u) (he : task.epoch = e) :
    Frame e w (u.addTask task) :=
  ⟨h.distinct, h.since, fun e' hne => (page_addTask_of_ne (he ▸ hne.symm)).trans (h.pages e' hne)⟩

lemma Frame.invalidateTasks {ks : List KindName} (h : Frame e w u) :
    Frame e w (u.invalidateTasks e ks) :=
  ⟨h.distinct, h.since, fun e' hne => (page_invalidateTasks_of_ne hne.symm).trans (h.pages e' hne)⟩

lemma distinct_updateClaim {f : ClaimData → ClaimData} (hw : Distinct w)
    (hf : ∀ c, (f c).epoch = c.epoch) : Distinct (w.updateClaim e f) := by
  show ((Keyed.update ClaimData.epoch e f w.claims).map ClaimData.epoch).Nodup
  rw [Keyed.map_key_update hf]
  exact hw

lemma Frame.updateClaim {f : ClaimData → ClaimData} (h : Frame e w u)
    (hf : ∀ c, (f c).epoch = c.epoch) : Frame e w (u.updateClaim e f) :=
  ⟨distinct_updateClaim h.distinct hf, h.since,
    fun e' hne => (page_updateClaim_of_ne hf hne.symm).trans (h.pages e' hne)⟩

lemma distinct_storeClaim (hw : Distinct w) (hc : w.claim? c.epoch = none) :
    Distinct (w.storeClaim c) := by
  show ((w.claims ++ [c]).map ClaimData.epoch).Nodup
  have hnot : c.epoch ∉ w.claims.map ClaimData.epoch := by
    intro hm
    obtain ⟨b, hb, hbc⟩ := List.mem_map.mp hm
    have hnone := List.find?_eq_none.mp hc b hb
    simp [hbc] at hnone
  rw [List.map_append, List.map_singleton]
  exact hw.append (List.nodup_singleton _) (List.disjoint_singleton.mpr hnot)

lemma Frame.storeClaim (h : Frame e w u) (he : c.epoch = e) (hc : u.claim? e = none) :
    Frame e w (u.storeClaim c) :=
  ⟨distinct_storeClaim h.distinct (he ▸ hc), h.since,
    fun e' hne => (page_storeClaim_of_ne (he ▸ hne.symm)).trans (h.pages e' hne)⟩

lemma deed?_eq_some (h : deed? o log = some d) : log.event? = some d.event ∧
    logTime o log = some d.time ∧ log.blockNumber = some d.block ∧
      o (.snapshots d.epoch) = .ok d.root := by
  simp only [deed?, Option.bind_eq_bind, Option.bind_eq_some_iff] at h
  obtain ⟨event, hevent, time, htime, block, hblock, h⟩ := h
  split at h
  · next root hroot =>
    obtain rfl := Option.some.inj h
    exact ⟨hevent, htime, hblock, hroot⟩
  · cases h

lemma like_store (hc : w.claim? c.epoch = none) :
    Prog.Like o w (ClaimStore.store c) (Prog.modify (·.storeClaim c)) := by
  have hlen : ¬(Keyed.entries ClaimData.epoch c.epoch w.claims).length > 0 := by
    rw [Keyed.entries_eq_nil_iff.mpr hc]
    exact Nat.not_lt_zero 0
  have hlike : Prog.Like o w (ClaimStore.store c)
      (if (Keyed.entries ClaimData.epoch c.epoch w.claims).length > 0 then
        .panic (.duplicateClaim c.epoch) else Prog.modify (·.storeClaim c)) := ⟨rfl, rfl⟩
  rwa [if_neg hlen] at hlike

lemma like_store_duplicate (hc : w.claim? c.epoch ≠ none) :
    Prog.Like o w (ClaimStore.store c) (.panic (.duplicateClaim c.epoch)) := by
  have hlen : (Keyed.entries ClaimData.epoch c.epoch w.claims).length > 0 := by
    rw [gt_iff_lt, List.length_pos_iff, ne_eq, Keyed.entries_eq_nil_iff]
    exact hc
  have hlike : Prog.Like o w (ClaimStore.store c)
      (if (Keyed.entries ClaimData.epoch c.epoch w.claims).length > 0 then
        .panic (.duplicateClaim c.epoch) else Prog.modify (·.storeClaim c)) := ⟨rfl, rfl⟩
  rwa [if_pos hlen] at hlike

lemma like_update {f : ClaimData → ClaimData} (hc : w.claim? e = some c) :
    Prog.Like o w (ClaimStore.update e f) (Prog.modify (·.updateClaim e f)) := by
  have hlookup : Keyed.lookup ClaimData.epoch e w.claims = some c := hc
  refine Prog.Like.trans Prog.Like.gets_bind ?_
  rw [hlookup]
  exact .refl

lemma like_existsClaim {α : Type} {g : Bool → M α} :
    Prog.Like o w (ClaimStore.existsClaim e >>= g) (g (w.claim? e).isSome) := by
  have hlike : Prog.Like o w (ClaimStore.existsClaim e >>= g)
      (g (w.claims.any fun c => c.epoch = e)) := ⟨rfl, rfl⟩
  rwa [any_epoch] at hlike

lemma like_get {α : Type} {g : ClaimData → M α} (hw : Distinct w) (hc : w.claim? e = some c) :
    Prog.Like o w (ClaimStore.get e >>= g) (g c) := by
  have hentries : Keyed.entries ClaimData.epoch e w.claims = [c] := by
    have hlookup : Keyed.lookup ClaimData.epoch e w.claims = some c := hc
    rw [Keyed.entries_eq_toList hw, hlookup, Option.toList_some]
  have hget : Prog.Like o w (ClaimStore.get e) (pure c) := by
    refine Prog.Like.trans Prog.Like.gets_bind ?_
    rw [hentries]
    exact .refl
  exact hget.bind

/-- The later logs of an epoch whose claim is stored. -/
lemma like_act (hd : deed? o log = some d) (hlater : ¬d.Claims) (hw : Distinct w)
    (hc : w.claim? d.epoch = some c) :
    ∃ f : ClaimData → ClaimData, (∀ c, (f c).epoch = c.epoch) ∧ f c = d.change c ∧
      Prog.Like o w (Indexer.act route log d.event) (do
        Prog.modify (·.updateClaim d.epoch f)
        Prog.modify (·.invalidateTasks d.epoch d.withdraws)
        Prog.modify (·.addTask (d.task route))) := by
  obtain ⟨-, htime, hblock, hroot⟩ := deed?_eq_some hd
  obtain ⟨event, time, block, root⟩ := d
  cases event with
  | claimed e claimer root' => exact absurd rfl hlater
  | verificationStarted e =>
    refine ⟨ClaimData.startVerification (u32 time) (u32 block), fun _ => rfl, rfl, ?_⟩
    have hc' : w.claim? e = some c := hc
    refine Prog.Like.trans like_existsClaim ?_
    rw [hc', if_neg (by simp)]
    refine Prog.Like.trans (like_getLogTimestamp htime) ?_
    rw [hblock]
    exact (like_update hc').bind
  | challenged e challenger =>
    refine ⟨ClaimData.challengeBy challenger, fun _ => rfl, rfl, ?_⟩
    have hc' : w.claim? e = some c := hc
    refine Prog.Like.trans like_existsClaim ?_
    rw [hc', if_neg (by simp)]
    refine Prog.Like.trans (like_update hc').bind (Prog.Like.modify_bind (Prog.Like.modify_bind ?_))
    exact like_getLogTimestamp htime
  | verified e =>
    refine ⟨ClaimData.settle (if c.stateRoot = root then "Claimer" else "Challenger"),
      fun _ => rfl, rfl, ?_⟩
    have hc' : w.claim? e = some c := hc
    refine Prog.Like.trans (like_getLogTimestamp htime) (Prog.Like.trans like_existsClaim ?_)
    rw [hc', if_neg (by simp)]
    refine Prog.Like.trans (like_get hw hc') ?_
    have hroot' : o (.snapshots e) = .ok root := hroot
    have hlike : Prog.Like o w (Indexer.getInboxSnapshot e >>= fun r => do
        ClaimStore.update e (ClaimData.settle (if c.stateRoot = r then "Claimer" else "Challenger"))
        TaskStore.invalidateTasks e
          [.validateClaim, .challenge, .startVerification, .verifySnapshot, .executeRelay]
        TaskStore.addTask ⟨e, time, .withdrawDeposit⟩)
        (expectOk "Failed to get inbox snapshot" (o (.snapshots e)) >>= fun r => do
        ClaimStore.update e (ClaimData.settle (if c.stateRoot = r then "Claimer" else "Challenger"))
        TaskStore.invalidateTasks e
          [.validateClaim, .challenge, .startVerification, .verifySnapshot, .executeRelay]
        TaskStore.addTask ⟨e, time, .withdrawDeposit⟩) := ⟨rfl, rfl⟩
    rw [hroot'] at hlike
    exact hlike.trans (like_update hc').bind

/-- The handler of a log is its act and a line in the log. -/
lemma handle_eq (hd : deed? o log = some d) :
    Indexer.handle route .outbox log =
      Indexer.act route log d.event >>= fun _ => info (.handled .outbox log) := by
  have heq := Indexer.dispatchOutboxEvent_eq route log
  rw [(deed?_eq_some hd).1] at heq
  dsimp only at heq
  rw [Indexer.handle, Indexer.dispatch, heq]

/-- What a handler does that comes to its end. -/
structure Handles (route : Route) (o : (q : Query) → q.Answer) (log : Log) (d : Deed) (w u : World) :
    Prop where
  eval : (Indexer.handle route .outbox log).eval o w = (.ok (), u)
  frame : Frame d.epoch w u
  stops : ∀ t ∈ (Indexer.handle route .outbox log).stops o w,
    Deed.Between route d (w.page d.epoch) (t.page d.epoch) ∧ Frame d.epoch w t

/-- A log that is dropped. -/
lemma handles_pure (hd : deed? o log = some d) (hw : Distinct w)
    (h : Prog.Like o w (Indexer.act route log d.event) (pure ())) :
    Handles route o log d w (w.note (.handled .outbox log)) := by
  have hlike : Prog.Like o w (Indexer.handle route .outbox log) (info (.handled .outbox log)) := by
    rw [handle_eq hd]
    exact h.bind
  refine ⟨hlike.1, (Frame.refl hw).note, fun t ht => ?_⟩
  rw [hlike.stops] at ht
  rcases List.mem_pair.mp ht with rfl | rfl
  · exact ⟨.same, .refl hw⟩
  · exact ⟨.same, (Frame.refl hw).note⟩

/-- A `Claimed` log asks the queue first. -/
lemma like_claimed {claimer : Address} {root : Word} {time : ℕ} (htime : logTime o log = some time) :
    Prog.Like o w (Indexer.claimed log e claimer root)
      (if w.schedule.tasks.any fun task => task.epoch = e then pure ()
      else do
        ClaimStore.store (ClaimData.fresh e root claimer (u32 time))
        TaskStore.addTask ⟨e, time, .validateClaim⟩) :=
  Prog.Like.trans (like_getLogTimestamp htime) ⟨rfl, rfl⟩

lemma handles_claimed {claimer : Address} {root : Word} (hd : deed? o log = some d)
    (hev : d.event = .claimed e claimer root) (hw : Distinct w) (hnone : w.claim? e = none)
    (hfree : ¬(w.page e).Tasked) :
    ∃ u, Handles route o log d w u ∧ u.page d.epoch = d.opened route := by
  obtain ⟨-, htime, -⟩ := deed?_eq_some hd
  obtain ⟨event, time, block, r⟩ := d
  obtain rfl : event = .claimed e claimer root := hev
  let d : Deed := ⟨.claimed e claimer root, time, block, r⟩
  let claim : ClaimData := ClaimData.fresh e root claimer (u32 time)
  have hact : Prog.Like o w (Indexer.act route log d.event) (do
      Prog.modify (·.storeClaim claim)
      Prog.modify (·.addTask (d.task route))) := by
    refine Prog.Like.trans (like_claimed htime) ?_
    rw [if_neg fun h => hfree (any_epoch_tasks.mp h)]
    exact (like_store hnone).bind
  have hlike : Prog.Like o w (Indexer.handle route .outbox log) ((do
      Prog.modify (·.storeClaim claim)
      Prog.modify (·.addTask (d.task route))) >>= fun _ => info (.handled .outbox log)) := by
    rw [handle_eq hd]
    exact hact.bind
  have hstored : (w.storeClaim claim).page e = d.stored := page_stored hnone hfree
  have hopened : ((w.storeClaim claim).addTask (d.task route)).page e = d.opened route :=
    page_opened (d := d) hstored
  have hopening : (w.page e).opening = none := opening_page_eq_none.mpr hnone
  have hframe : Frame e w (w.storeClaim claim) := (Frame.refl hw).storeClaim rfl hnone
  have hframe' : Frame e w ((w.storeClaim claim).addTask (d.task route)) := hframe.addTask rfl
  refine ⟨_, ⟨hlike.1, hframe'.note, fun t ht => ?_⟩, hopened⟩
  rw [hlike.stops] at ht
  have ht' : t ∈ [w, w.storeClaim claim, (w.storeClaim claim).addTask (d.task route),
    ((w.storeClaim claim).addTask (d.task route)).note (.handled .outbox log)] := ht
  have hbetween : Deed.Between route d (w.page e) (d.opened route) := .opened rfl hopening hfree
  simp only [List.mem_cons, List.not_mem_nil, or_false] at ht'
  rcases ht' with rfl | rfl | rfl | rfl
  · exact ⟨.same, .refl hw⟩
  · have hs : Deed.Between route d (w.page e) d.stored := .stored rfl hopening hfree
    exact ⟨hstored ▸ hs, hframe⟩
  · exact ⟨hopened ▸ hbetween, hframe'⟩
  · exact ⟨hopened ▸ hbetween, hframe'.note⟩

lemma handles_later (hd : deed? o log = some d) (hlater : ¬d.Claims) (hw : Distinct w)
    (hc : w.claim? d.epoch = some c) :
    ∃ u, Handles route o log d w u ∧
      u.page d.epoch = Deed.fill route c.stateRoot [d] (w.page d.epoch) := by
  obtain ⟨f, hf, hfc, hact⟩ : ∃ f : ClaimData → ClaimData, _ ∧ _ ∧
      Prog.Like o w (Indexer.act route log d.event) _ := like_act hd hlater hw hc
  have hlike : Prog.Like o w (Indexer.handle route .outbox log) ((do
      Prog.modify (·.updateClaim d.epoch f)
      Prog.modify (·.invalidateTasks d.epoch d.withdraws)
      Prog.modify (·.addTask (d.task route))) >>= fun _ => info (.handled .outbox log)) := by
    rw [handle_eq hd]
    exact hact.bind
  have hupdate : Frame d.epoch w (w.updateClaim d.epoch f) := (Frame.refl hw).updateClaim hf
  have hinvalidate : Frame d.epoch w ((w.updateClaim d.epoch f).invalidateTasks d.epoch d.withdraws) :=
    hupdate.invalidateTasks
  have hamend : Frame d.epoch w (amend route d f w) := hinvalidate.addTask (d.epoch_task route)
  have hpage : (amend route d f w).page d.epoch = _ := page_amend hlater hf hc hfc
  refine ⟨_, ⟨hlike.1, hamend.note, fun t ht => ?_⟩, hpage⟩
  rw [hlike.stops] at ht
  have ht' : t ∈ [w, w.updateClaim d.epoch f,
    (w.updateClaim d.epoch f).invalidateTasks d.epoch d.withdraws, amend route d f w,
    (amend route d f w).note (.handled .outbox log)] := ht
  have hbetween : ∀ t : World, _ → Deed.Between route d (w.page d.epoch) (t.page d.epoch) :=
    fun t => between_amend hlater hf hc hfc
  simp only [List.mem_cons, List.not_mem_nil, or_false] at ht'
  rcases ht' with rfl | rfl | rfl | rfl | rfl
  · exact ⟨.same, .refl hw⟩
  · exact ⟨hbetween _ (.inr (.inl rfl)), hupdate⟩
  · exact ⟨hbetween _ (.inr (.inr (.inl rfl))), hinvalidate⟩
  · exact ⟨hbetween _ (.inr (.inr (.inr rfl))), hamend⟩
  · show Deed.Between route d _ ((amend route d f w).page d.epoch) ∧ _
    exact ⟨hbetween _ (.inr (.inr (.inr rfl))), hamend.note⟩

/-- The later logs of an epoch whose claim is not stored. -/
lemma like_act_missing (hd : deed? o log = some d) (hlater : ¬d.Claims)
    (hc : w.claim? d.epoch = none) :
    Prog.Like o w (Indexer.act route log d.event)
      (if d.time < graceEnd route w then pure () else .panic (.claimNotFound d.epoch)) := by
  obtain ⟨-, htime, -⟩ := deed?_eq_some hd
  obtain ⟨event, time, block, root⟩ := d
  cases event with
  | claimed e claimer root' => exact absurd rfl hlater
  | verificationStarted e =>
    have hc' : w.claim? e = none := hc
    refine Prog.Like.trans like_existsClaim ?_
    rw [hc', if_pos (by simp)]
    exact Prog.Like.trans (like_getLogTimestamp htime) ⟨rfl, rfl⟩
  | challenged e challenger =>
    have hc' : w.claim? e = none := hc
    refine Prog.Like.trans like_existsClaim ?_
    rw [hc', if_pos (by simp)]
    exact Prog.Like.trans (like_getLogTimestamp htime) ⟨rfl, rfl⟩
  | verified e =>
    have hc' : w.claim? e = none := hc
    refine Prog.Like.trans (like_getLogTimestamp htime) (Prog.Like.trans like_existsClaim ?_)
    rw [hc', if_pos (by simp)]
    exact ⟨rfl, rfl⟩

lemma exists_claimed (h : d.Claims) : ∃ e claimer root, d.event = .claimed e claimer root := by
  obtain ⟨event, time, block, root⟩ := d
  cases event with
  | claimed e claimer root' => exact ⟨e, claimer, root', rfl⟩
  | verificationStarted e => cases h
  | challenged e challenger => cases h
  | verified e => cases h

/-- **A handler turns the page of its epoch.** -/
lemma handle_turn {p : Page} (hd : deed? o log = some d) (hw : Distinct w)
    (h : d.turn route (graceEnd route w) (w.page d.epoch) = some p) :
    ∃ u, Handles route o log d w u ∧ u.page d.epoch = p := by
  by_cases hclaims : d.Claims
  · obtain ⟨e, claimer, root, hev⟩ := exists_claimed hclaims
    have he : d.epoch = e := by rw [Deed.epoch, hev, Event.epoch]
    by_cases htask : (w.page d.epoch).Tasked
    · rw [Deed.turn_tasked hclaims htask] at h
      refine ⟨_, handles_pure hd hw ?_, Option.some.inj h⟩
      have hlike : Prog.Like o w (Indexer.claimed log e claimer root) _ :=
        like_claimed (deed?_eq_some hd).2.1
      rw [if_pos (any_epoch_tasks.mpr (he ▸ htask))] at hlike
      rw [hev]
      exact hlike
    · cases hc : w.claim? d.epoch with
      | none =>
        rw [Deed.turn_opens hclaims htask (opening_page_eq_none.mpr hc)] at h
        rw [← Option.some.inj h]
        rw [he] at hc htask
        exact handles_claimed hd hev hw hc htask
      | some c =>
        have hopen : (w.page d.epoch).opening = some c.opening := congrArg (Option.map _) hc
        rw [Deed.turn_duplicate hclaims htask hopen] at h
        cases h
  · cases hc : w.claim? d.epoch with
    | none =>
      rw [Deed.turn_missing hclaims (opening_page_eq_none.mpr hc)] at h
      have hlike : Prog.Like o w (Indexer.act route log d.event) _ := like_act_missing hd hclaims hc
      split at h
      · next htime =>
        rw [if_pos htime] at hlike
        exact ⟨_, handles_pure hd hw hlike, Option.some.inj h⟩
      · cases h
    | some c =>
      have hopen : (w.page d.epoch).opening = some c.opening := congrArg (Option.map _) hc
      rw [Deed.turn_later hclaims hopen] at h
      rw [← Option.some.inj h]
      exact handles_later (c := c) hd hclaims hw hc

/-- A handler panics where its page cannot be turned. -/
lemma handle_panic (hd : deed? o log = some d)
    (h : d.turn route (graceEnd route w) (w.page d.epoch) = none) :
    ∃ err, ((Indexer.handle route .outbox log).eval o w).1 = .error err := by
  have hpanic : ∀ err, Prog.Like o w (Indexer.act route log d.event) (.panic err) →
      ∃ err, ((Indexer.handle route .outbox log).eval o w).1 = .error err := by
    intro err hlike
    rw [handle_eq hd, hlike.bind.1]
    exact ⟨err, rfl⟩
  by_cases hclaims : d.Claims
  · obtain ⟨e, claimer, root, hev⟩ := exists_claimed hclaims
    have he : d.epoch = e := by rw [Deed.epoch, hev, Event.epoch]
    by_cases htask : (w.page d.epoch).Tasked
    · rw [Deed.turn_tasked hclaims htask] at h
      cases h
    · cases hc : w.claim? d.epoch with
      | none =>
        rw [Deed.turn_opens hclaims htask (opening_page_eq_none.mpr hc)] at h
        cases h
      | some c =>
        refine hpanic (.duplicateClaim e) ?_
        rw [hev]
        refine Prog.Like.trans (like_claimed (deed?_eq_some hd).2.1) ?_
        rw [if_neg fun hany => htask (he ▸ any_epoch_tasks.mp hany)]
        have hstored : w.claim? e ≠ none := by
          rw [← he, hc]
          exact Option.some_ne_none c
        exact (like_store_duplicate hstored).bind
  · cases hc : w.claim? d.epoch with
    | none =>
      have hlike : Prog.Like o w (Indexer.act route log d.event) _ := like_act_missing hd hclaims hc
      rw [Deed.turn_missing hclaims (opening_page_eq_none.mpr hc)] at h
      split at h
      · cases h
      · next htime =>
        rw [if_neg htime] at hlike
        exact hpanic _ hlike
    | some c =>
      have hopen : (w.page d.epoch).opening = some c.opening := congrArg (Option.map _) hc
      rw [Deed.turn_later hclaims hopen] at h
      cases h

/-! ### A list of logs -/

/-- The deeds of some logs for epoch `e`. -/
def deeds (o : (q : Query) → q.Answer) (e : ℕ) (logs : List Log) : List Deed :=
  (logs.filterMap (deed? o)).filter fun d => d.epoch = e

lemma deeds_cons_self {logs : List Log} (hd : deed? o log = some d) :
    deeds o d.epoch (log :: logs) = d :: deeds o d.epoch logs := by
  rw [deeds, List.filterMap_cons_some hd, List.filter_cons_of_pos (by simp), deeds]

lemma deeds_cons_of_ne {logs : List Log} (hd : deed? o log = some d) (h : d.epoch ≠ e) :
    deeds o e (log :: logs) = deeds o e logs := by
  rw [deeds, List.filterMap_cons_some hd, List.filter_cons_of_neg (by simpa using h), deeds]

lemma deeds_append {logs logs' : List Log} :
    deeds o e (logs ++ logs') = deeds o e logs ++ deeds o e logs' := by
  rw [deeds, List.filterMap_append, List.filter_append, deeds, deeds]

lemma epoch_of_mem_deeds {logs : List Log} (h : d ∈ deeds o e logs) : d.epoch = e := by
  simpa using (List.mem_filter.mp h).2

lemma Handles.graceEnd (h : Handles route o log d w u) : graceEnd route u = graceEnd route w := by
  rw [Replay.graceEnd, h.frame.since, Replay.graceEnd]

/-- A run over some logs that comes to its end turns the page of every epoch. -/
lemma turns_of_eval {logs : List Log} (hlogs : ∀ log ∈ logs, deed? o log ≠ none) (hw : Distinct w)
    (h : Prog.eval o (forM logs (Indexer.handle route .outbox)) w = (.ok (), u)) :
    Distinct u ∧ ∀ e, Deed.turns route (graceEnd route w) (deeds o e logs) (w.page e) =
      some (u.page e) := by
  induction logs generalizing w with
  | nil =>
    obtain rfl : w = u := congrArg Prod.snd h
    exact ⟨hw, fun _ => rfl⟩
  | cons log logs ih =>
    obtain ⟨d, hd⟩ := Option.ne_none_iff_exists'.mp (hlogs log List.mem_cons_self)
    rw [List.forM_cons, Prog.eval_bind] at h
    cases hturn : d.turn route (graceEnd route w) (w.page d.epoch) with
    | none =>
      obtain ⟨err, herr⟩ := handle_panic hd hturn
      rcases heval : (Indexer.handle route .outbox log).eval o w with ⟨r, v⟩
      rw [heval] at h herr
      obtain rfl : r = .error err := herr
      cases h
    | some p =>
      obtain ⟨v, hv, hp⟩ := handle_turn hd hw hturn
      rw [hv.eval] at h
      obtain ⟨hu, hpages⟩ := ih (fun l hl => hlogs l (List.mem_cons_of_mem _ hl)) hv.frame.distinct h
      refine ⟨hu, fun e => ?_⟩
      rw [hv.graceEnd] at hpages
      by_cases he : d.epoch = e
      · subst he
        rw [deeds_cons_self hd, Deed.turns, hturn, Option.bind_some, ← hp]
        exact hpages d.epoch
      · rw [deeds_cons_of_ne hd he, ← hv.frame.pages e (Ne.symm he)]
        exact hpages e

/-- A run over some logs comes to its end when every page can be turned. -/
lemma eval_of_turns {logs : List Log} (hlogs : ∀ log ∈ logs, deed? o log ≠ none) (hw : Distinct w)
    (h : ∀ e, Deed.turns route (graceEnd route w) (deeds o e logs) (w.page e) ≠ none) :
    ∃ u, Prog.eval o (forM logs (Indexer.handle route .outbox)) w = (.ok (), u) := by
  induction logs generalizing w with
  | nil => exact ⟨w, rfl⟩
  | cons log logs ih =>
    obtain ⟨d, hd⟩ := Option.ne_none_iff_exists'.mp (hlogs log List.mem_cons_self)
    have hown := h d.epoch
    rw [deeds_cons_self hd, Deed.turns] at hown
    cases hturn : d.turn route (graceEnd route w) (w.page d.epoch) with
    | none =>
      rw [hturn] at hown
      exact absurd rfl hown
    | some p =>
      obtain ⟨v, hv, hp⟩ := handle_turn hd hw hturn
      rw [List.forM_cons, Prog.eval_bind_ok hv.eval]
      refine ih (fun l hl => hlogs l (List.mem_cons_of_mem _ hl)) hv.frame.distinct fun e => ?_
      rw [hv.graceEnd]
      by_cases he : d.epoch = e
      · subst he
        rw [hturn, Option.bind_some, ← hp] at hown
        exact hown
      · have hother := h e
        rw [deeds_cons_of_ne hd he] at hother
        rwa [hv.frame.pages e (Ne.symm he)]

/-- A run over some logs is stopped on pages on which these logs may be stopped. -/
lemma halts_of_stops {logs : List Log} (hlogs : ∀ log ∈ logs, deed? o log ≠ none) (hw : Distinct w)
    (hrun : (Prog.eval o (forM logs (Indexer.handle route .outbox)) w).1 = .ok ())
    (h : t ∈ Prog.stops o (forM logs (Indexer.handle route .outbox)) w) :
    Distinct t ∧ ∀ e, Deed.Halts route (graceEnd route w) (deeds o e logs) (w.page e) (t.page e) := by
  induction logs generalizing w with
  | nil =>
    obtain rfl := List.mem_singleton.mp h
    exact ⟨hw, fun _ => rfl⟩
  | cons log logs ih =>
    obtain ⟨d, hd⟩ := Option.ne_none_iff_exists'.mp (hlogs log List.mem_cons_self)
    rw [List.forM_cons] at h hrun
    cases hturn : d.turn route (graceEnd route w) (w.page d.epoch) with
    | none =>
      obtain ⟨err, herr⟩ := handle_panic hd hturn
      rcases heval : (Indexer.handle route .outbox log).eval o w with ⟨r, v⟩
      rw [Prog.eval_bind, heval] at hrun
      rw [heval] at herr
      obtain rfl : r = .error err := herr
      cases hrun
    | some p =>
      obtain ⟨v, hv, hp⟩ := handle_turn hd hw hturn
      rcases Prog.mem_stops_bind h with h | ⟨_, v', heval, h⟩
      · obtain ⟨hbetween, hframe⟩ := hv.stops t h
        refine ⟨hframe.distinct, fun e => ?_⟩
        by_cases he : d.epoch = e
        · subst he
          rw [deeds_cons_self hd]
          exact .inl hbetween
        · rw [deeds_cons_of_ne hd he, hframe.pages e (Ne.symm he)]
          exact Deed.halts_self
      · rw [hv.eval] at heval
        obtain rfl : v = v' := congrArg Prod.snd heval
        rw [Prog.eval_bind_ok hv.eval] at hrun
        obtain ⟨ht, hhalts⟩ := ih (fun l hl => hlogs l (List.mem_cons_of_mem _ hl)) hv.frame.distinct
          hrun h
        refine ⟨ht, fun e => ?_⟩
        rw [hv.graceEnd] at hhalts
        by_cases he : d.epoch = e
        · subst he
          rw [deeds_cons_self hd]
          exact .inr ⟨p, hturn, hp ▸ hhalts d.epoch⟩
        · rw [deeds_cons_of_ne hd he, ← hv.frame.pages e (Ne.symm he)]
          exact hhalts e

end Replay

end VeaValidator
