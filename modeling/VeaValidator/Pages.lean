import VeaValidator.Coop.Patch
import VeaValidator.Lifecycle

/-!
What the logs of an epoch make of its page.

The page of an epoch is what the two files hold of it: how its claim was opened, the fields that
later logs fill in, and its tasks. A log of the epoch either opens the claim, or overwrites some of
the rest, or is dropped. Pages are where a run that is stopped and started again is compared with
one that is not.
-/

namespace VeaValidator

open Coop

/-! ### Logs as the handlers see them -/

/-- An event with what the nodes tell of its log: its time, its block, and the root the inbox has
for its epoch. -/
structure Deed where
  event : Event
  time : ℕ
  block : ℕ
  root : Word

/-- The time `get_log_timestamp` comes back with. -/
def logTime (o : (q : Query) → q.Answer) (log : Log) : Option ℕ :=
  match log.blockTimestamp with
  | some ts => some ts
  | none =>
    match log.blockNumber with
    | none => none
    | some n =>
      match o (.blockByNumber .outbox (.number n)) with
      | .ok (some block) => some block.timestamp
      | _ => none

/-- The deed of a log, where the nodes answer. -/
def deed? (o : (q : Query) → q.Answer) (log : Log) : Option Deed := do
  let event ← log.event?
  let time ← logTime o log
  let block ← log.blockNumber
  match o (.snapshots event.epoch) with
  | .ok root => some ⟨event, time, block, root⟩
  | .error _ => none

namespace Deed

def epoch (d : Deed) : ℕ := d.event.epoch

/-- The log is the `Claimed` log of its epoch. -/
def Claims (d : Deed) : Prop := d.event.rank = 0

instance (d : Deed) : Decidable d.Claims := inferInstanceAs (Decidable (_ = _))

/-- What the handler of a later log makes of the stored claim. -/
def change (d : Deed) (c : ClaimData) : ClaimData :=
  match d.event with
  | .claimed _ _ _ => c
  | .verificationStarted _ => c.startVerification (u32 d.time) (u32 d.block)
  | .challenged _ challenger => c.challengeBy challenger
  | .verified _ => c.settle (if c.stateRoot = d.root then "Claimer" else "Challenger")

/-- The kinds of tasks the log takes back. -/
def withdraws (d : Deed) : List KindName :=
  match d.event with
  | .claimed _ _ _ => []
  | .verificationStarted _ => [.startVerification]
  | .challenged _ _ => [.validateClaim, .challenge, .startVerification, .verifySnapshot]
  | .verified _ => [.validateClaim, .challenge, .startVerification, .verifySnapshot, .executeRelay]

/-- The task the log schedules. -/
def task (route : Route) (d : Deed) : Task :=
  match d.event with
  | .claimed e _ _ => ⟨e, d.time, .validateClaim⟩
  | .verificationStarted e =>
    ⟨e, u64 (u32 d.time + route.settings.minChallengePeriod), .verifySnapshot⟩
  | .challenged e _ => ⟨e, d.time, .sendSnapshot⟩
  | .verified e => ⟨e, d.time, .withdrawDeposit⟩

lemma epoch_task (route : Route) (d : Deed) : (d.task route).epoch = d.epoch := by
  obtain ⟨event, time, block, root⟩ := d
  cases event <;> rfl

end Deed

/-! ### Pages -/

/-- A place on the page of an epoch that a later log may write to. -/
inductive Slot
  | verification
  | challenger
  | honest
  | queued (task : Task)

@[reducible] def Slot.Value : Slot → Type
  | .verification => ℕ × ℕ
  | .challenger => Address
  | .honest => String
  | .queued _ => Prop

/-- The claim as it was stored. -/
def ClaimData.opening (c : ClaimData) : ClaimData :=
  ClaimData.fresh c.epoch c.stateRoot c.claimer c.timestampClaimed

@[ext]
structure Page where
  opening : Option ClaimData
  slots : (k : Slot) → k.Value

/-- What the files hold of epoch `e`. -/
def World.page (e : ℕ) (w : World) : Page where
  opening := (w.claim? e).map ClaimData.opening
  slots
    | .verification => ((w.claim? e).map fun c =>
        (c.timestampVerification, c.blocknumberVerification)).getD (0, 0)
    | .challenger => ((w.claim? e).map ClaimData.challenger).getD 0
    | .honest => ((w.claim? e).map ClaimData.honest).getD "None"
    | .queued task => task ∈ w.schedule.tasks ∧ task.epoch = e

/-- A task of the epoch is queued. -/
def Page.Tasked (p : Page) : Prop := ∃ task, p.slots (.queued task)

namespace Deed

/-- What a later log writes on the page, when the stored claim is of the root `claimed`. -/
def patch (route : Route) (claimed : Word) (d : Deed) : Patch Slot.Value
  | .verification =>
    match d.event with
    | .verificationStarted _ => some (u32 d.time, u32 d.block)
    | _ => none
  | .challenger =>
    match d.event with
    | .challenged _ challenger => some challenger
    | _ => none
  | .honest =>
    match d.event with
    | .verified _ => some (if claimed = d.root then "Claimer" else "Challenger")
    | _ => none
  | .queued task =>
    if d.Claims then none
    else if task = d.task route then some True
    else if task.epoch = d.epoch ∧ task.kind.name ∈ d.withdraws then some False
    else none

/-- The page with the claim of the log stored, and no task yet. -/
def stored (d : Deed) : Page where
  opening :=
    match d.event with
    | .claimed e claimer root => some (ClaimData.fresh e root claimer (u32 d.time))
    | _ => none
  slots
    | .verification => (0, 0)
    | .challenger => 0
    | .honest => "None"
    | .queued _ => False

/-- The page with the claim of the log stored and its first task queued. -/
def opened (route : Route) (d : Deed) : Page where
  opening := d.stored.opening
  slots
    | .queued task => task = d.task route
    | k => d.stored.slots k

open Classical in
/-- The page after a log of its epoch; `none` is a panic. A log that does not open the claim is
dropped before `grace` when there is none. -/
noncomputable def turn (route : Route) (grace : ℕ) (d : Deed) (p : Page) : Option Page :=
  if d.Claims then
    if p.Tasked then some p
    else if p.opening = none then some (d.opened route)
    else none
  else
    match p.opening with
    | none => if d.time < grace then some p else none
    | some c => some { p with slots := (d.patch route c.stateRoot).apply p.slots }

/-- The page after some logs of its epoch. -/
noncomputable def turns (route : Route) (grace : ℕ) : List Deed → Page → Option Page
  | [], p => some p
  | d :: ds, p => (turn route grace d p).bind (turns route grace ds)

/-- The pages a handler leaves behind when it is stopped at one of its writes: it may have opened
the claim with or without its task, or have written some of what it has to write. -/
inductive Between (route : Route) (d : Deed) (p : Page) : Page → Prop
  | same : Between route d p p
  | stored (hd : d.Claims) (hp : p.opening = none) (ht : ¬p.Tasked) : Between route d p d.stored
  | opened (hd : d.Claims) (hp : p.opening = none) (ht : ¬p.Tasked) :
      Between route d p (d.opened route)
  | partly {c : ClaimData} {q : Page} (hd : ¬d.Claims) (hp : p.opening = some c)
      (hq : q.opening = some c)
      (hs : ∀ k, d.patch route c.stateRoot k = none → q.slots k = p.slots k) : Between route d p q

/-- The pages some logs leave behind when they are stopped. -/
def Halts (route : Route) (grace : ℕ) : List Deed → Page → Page → Prop
  | [], p, q => q = p
  | d :: ds, p, q => Between route d p q ∨ ∃ p', turn route grace d p = some p' ∧
      Halts route grace ds p' q

/-- What the last of some logs that writes to a place writes there. -/
def last (route : Route) (claimed : Word) (ds : List Deed) : Patch Slot.Value :=
  Patch.last (ds.map (patch route claimed))

/-- The page with everything that some logs write on it. -/
def fill (route : Route) (claimed : Word) (ds : List Deed) (p : Page) : Page :=
  { p with slots := Patch.run (ds.map (patch route claimed)) p.slots }

variable {route : Route} {grace : ℕ} {d : Deed} {ds ds' : List Deed} {p q : Page} {c : ClaimData}
  {claimed : Word} {k : Slot}

/-! ### One log -/

lemma patch_of_claims (h : d.Claims) : d.patch route claimed k = none := by
  obtain ⟨event, time, block, root⟩ := d
  cases event with
  | claimed e claimer root' => cases k <;> rfl
  | verificationStarted e => cases h
  | challenged e challenger => cases h
  | verified e => cases h

@[simp] lemma fill_nil : fill route claimed [] p = p := rfl

lemma fill_cons_of_claims (h : d.Claims) : fill route claimed (d :: ds) p = fill route claimed ds p := by
  have happly : (d.patch route claimed).apply p.slots = p.slots :=
    funext fun k => Patch.apply_of_none (patch_of_claims h)
  rw [fill, List.map_cons, Patch.run_cons, happly, fill]

lemma last_append : last route claimed (ds ++ ds') k =
    (last route claimed ds' k).or (last route claimed ds k) := by
  rw [last, List.map_append, Patch.last_append, last, last]

/-- No later log schedules a `ValidateClaim` task. -/
lemma patch_validateClaim {task : Task} (hk : task.kind = .validateClaim)
    (hw : .validateClaim ∉ d.withdraws) : d.patch route claimed (.queued task) = none := by
  have hne : ¬d.Claims → task ≠ d.task route := by
    rintro hd rfl
    obtain ⟨event, time, block, root⟩ := d
    cases event with
    | claimed e claimer root' => exact hd rfl
    | verificationStarted e => cases hk
    | challenged e challenger => cases hk
    | verified e => cases hk
  rw [patch]
  split
  · rfl
  · next hd => rw [if_neg (hne hd), if_neg (by simp [hk, TaskKind.name, hw])]

lemma withdraws_validateClaim {task : Task} (hk : task.kind = .validateClaim)
    (he : task.epoch = d.epoch) (hw : .validateClaim ∈ d.withdraws) :
    d.patch route claimed (.queued task) = some False := by
  obtain ⟨event, time, block, root⟩ := d
  obtain ⟨e', n, kind⟩ := task
  obtain rfl : kind = .validateClaim := hk
  cases event with
  | claimed e claimer root' => simp [withdraws] at hw
  | verificationStarted e => simp [withdraws] at hw
  | challenged e challenger =>
    have hne : (⟨e', n, .validateClaim⟩ : Task) ≠ ⟨e, time, .sendSnapshot⟩ := by simp
    obtain rfl : e' = e := he
    simp [patch, Claims, Event.rank, Deed.task, withdraws, TaskKind.name, epoch, Event.epoch]
  | verified e =>
    obtain rfl : e' = e := he
    simp [patch, Claims, Event.rank, Deed.task, withdraws, TaskKind.name, epoch, Event.epoch]

lemma turn_tasked (hd : d.Claims) (ht : p.Tasked) : turn route grace d p = some p := by
  rw [turn, if_pos hd, if_pos ht]

lemma turn_opens (hd : d.Claims) (ht : ¬p.Tasked) (hp : p.opening = none) :
    turn route grace d p = some (d.opened route) := by
  rw [turn, if_pos hd, if_neg ht, if_pos hp]

lemma turn_duplicate (hd : d.Claims) (ht : ¬p.Tasked) (hp : p.opening = some c) :
    turn route grace d p = none := by
  rw [turn, if_pos hd, if_neg ht, if_neg (by simp [hp])]

lemma turn_missing (hd : ¬d.Claims) (hp : p.opening = none) :
    turn route grace d p = if d.time < grace then some p else none := by
  rw [turn, if_neg hd, hp]

lemma turn_later (hd : ¬d.Claims) (hp : p.opening = some c) :
    turn route grace d p = some (fill route c.stateRoot [d] p) := by
  obtain ⟨opening, slots⟩ := p
  obtain rfl : opening = some c := hp
  rw [turn, if_neg hd]
  rfl

/-! ### Some logs -/

/-- The later logs of an epoch that is not stored. -/
lemma turns_missing (hds : ∀ d ∈ ds, ¬d.Claims) (hp : p.opening = none) :
    turns route grace ds p = some q ↔ q = p ∧ ∀ d ∈ ds, d.time < grace := by
  induction ds with
  | nil => simp [turns, eq_comm]
  | cons d ds ih =>
    rw [turns, turn_missing (hds d List.mem_cons_self) hp, List.forall_mem_cons]
    have ih' := ih fun d hd => hds d (List.mem_cons_of_mem _ hd)
    by_cases htime : d.time < grace
    · rw [if_pos htime, Option.bind_some, ih', iff_true_intro htime, true_and]
    · rw [if_neg htime, Option.bind_none]
      simp [htime]

/-- The later logs of an epoch that is stored. -/
lemma turns_later (hds : ∀ d ∈ ds, ¬d.Claims) (hp : p.opening = some c) :
    turns route grace ds p = some (fill route c.stateRoot ds p) := by
  induction ds generalizing p with
  | nil => rfl
  | cons d ds ih =>
    rw [turns, turn_later (hds d List.mem_cons_self) hp, Option.bind_some]
    exact ih (fun d hd => hds d (List.mem_cons_of_mem _ hd)) hp

/-- The logs of an epoch that is stored: its `Claimed` log comes first, and has to find a task. -/
lemma turns_stored (hds : ds.Pairwise fun _ b => ¬b.Claims) (hp : p.opening = some c) :
    turns route grace ds p = some q ↔
      (∀ d ∈ ds, d.Claims → p.Tasked) ∧ q = fill route c.stateRoot ds p := by
  rcases ds with _ | ⟨d, ds⟩
  · simp [turns, eq_comm]
  obtain ⟨hhead, -⟩ := List.pairwise_cons.mp hds
  by_cases hd : d.Claims
  · by_cases ht : p.Tasked
    · rw [turns, turn_tasked hd ht, Option.bind_some, turns_later hhead hp, fill_cons_of_claims hd]
      simp [ht, eq_comm]
    · rw [turns, turn_duplicate hd ht hp, Option.bind_none]
      simp [hd, ht]
  · have hall : ∀ b ∈ d :: ds, ¬b.Claims := List.forall_mem_cons.mpr ⟨hd, hhead⟩
    rw [turns_later hall hp, Option.some.injEq, eq_comm, iff_and_self]
    exact fun _ b hb hc => absurd hc (hall b hb)

/-- The logs of an epoch that is not stored: its `Claimed` log opens it when there is no task, and
otherwise they are all dropped. -/
lemma turns_absent (hds : ds.Pairwise fun _ b => ¬b.Claims) (hp : p.opening = none) :
    turns route grace ds p = some q ↔
      (∃ d ds', ds = d :: ds' ∧ d.Claims ∧ ¬p.Tasked ∧
        turns route grace ds' (d.opened route) = some q) ∨
      ((p.Tasked ∨ ∀ d ∈ ds, ¬d.Claims) ∧ q = p ∧ ∀ d ∈ ds, ¬d.Claims → d.time < grace) := by
  rcases ds with _ | ⟨d, ds⟩
  · simp [turns, eq_comm]
  obtain ⟨hhead, -⟩ := List.pairwise_cons.mp hds
  have htail : (∀ b ∈ ds, ¬b.Claims → b.time < grace) ↔ ∀ b ∈ ds, b.time < grace :=
    ⟨fun h b hb => h b hb (hhead b hb), fun h b hb _ => h b hb⟩
  by_cases hd : d.Claims
  · by_cases ht : p.Tasked
    · rw [turns, turn_tasked hd ht, Option.bind_some, turns_missing hhead hp]
      simp [hd, ht, htail]
    · rw [turns, turn_opens hd ht hp, Option.bind_some]
      simp [hd, ht]
  · have hall : ∀ b ∈ d :: ds, ¬b.Claims := List.forall_mem_cons.mpr ⟨hd, hhead⟩
    have htimes : (∀ b ∈ d :: ds, ¬b.Claims → b.time < grace) ↔ ∀ b ∈ d :: ds, b.time < grace :=
      ⟨fun h b hb => h b hb (hall b hb), fun h b hb _ => h b hb⟩
    rw [turns_missing hall hp, htimes]
    constructor
    · exact fun h => .inr ⟨.inr hall, h⟩
    · rintro (⟨b, bs, hb, hc, -⟩ | ⟨-, h⟩)
      · cases hb
        exact absurd hc hd
      · exact h

/-! ### Logs that are stopped -/

lemma halts_self : Halts route grace ds p p := by
  cases ds with
  | nil => rfl
  | cons d ds => exact .inl .same

lemma halts_of_turns (h : turns route grace ds p = some q) : Halts route grace ds p q := by
  induction ds generalizing p with
  | nil => exact (Option.some.inj h).symm
  | cons d ds ih =>
    obtain ⟨p', hturn, hturns⟩ := Option.bind_eq_some_iff.mp h
    exact .inr ⟨p', hturn, ih hturns⟩

/-- The claim of an epoch that is stored stays, and what no log writes to stays as it is. -/
lemma halts_stored (hp : p.opening = some c) (h : Halts route grace ds p q) :
    q.opening = some c ∧ ∀ k, last route c.stateRoot ds k = none → q.slots k = p.slots k := by
  induction ds generalizing p with
  | nil =>
    obtain rfl : q = p := h
    exact ⟨hp, fun _ _ => rfl⟩
  | cons d ds ih =>
    have hlast : ∀ k, last route c.stateRoot (d :: ds) k = none →
        d.patch route c.stateRoot k = none ∧ last route c.stateRoot ds k = none := by
      intro k hk
      rw [last, List.map_cons, Patch.last_cons, Option.or_eq_none_iff] at hk
      exact hk.symm
    rcases h with h | ⟨p', hturn, h⟩
    · cases h with
      | same => exact ⟨hp, fun _ _ => rfl⟩
      | stored _ hnone =>
        rw [hp] at hnone
        cases hnone
      | opened _ hnone =>
        rw [hp] at hnone
        cases hnone
      | partly _ hp' hq hs =>
        obtain rfl := Option.some.inj (hp.symm.trans hp')
        exact ⟨hq, fun k hk => hs k (hlast k hk).1⟩
    by_cases hd : d.Claims
    · by_cases ht : p.Tasked
      · rw [turn_tasked hd ht] at hturn
        obtain rfl := Option.some.inj hturn
        obtain ⟨hq, hs⟩ := ih hp h
        exact ⟨hq, fun k hk => hs k (hlast k hk).2⟩
      · rw [turn_duplicate hd ht hp] at hturn
        cases hturn
    · rw [turn_later hd hp] at hturn
      obtain rfl := Option.some.inj hturn
      have hfill : (fill route c.stateRoot [d] p).opening = some c := hp
      obtain ⟨hq, hs⟩ := ih hfill h
      refine ⟨hq, fun k hk => (hs k (hlast k hk).2).trans ?_⟩
      exact Patch.apply_of_none (hlast k hk).1

lemma halts_missing (hds : ∀ d ∈ ds, ¬d.Claims) (hp : p.opening = none)
    (h : Halts route grace ds p q) : q = p := by
  induction ds with
  | nil => exact h
  | cons d ds ih =>
    obtain ⟨hd, hds⟩ := List.forall_mem_cons.mp hds
    rcases h with h | ⟨p', hturn, h⟩
    · cases h with
      | same => rfl
      | stored hc => exact absurd hc hd
      | opened hc => exact absurd hc hd
      | partly _ hp' =>
        rw [hp] at hp'
        cases hp'
    · rw [turn_missing hd hp] at hturn
      split at hturn
      · obtain rfl := Option.some.inj hturn
        exact ih hds h
      · cases hturn

lemma opening_stored (hd : d.Claims) : ∃ c, d.stored.opening = some c := by
  obtain ⟨event, time, block, root⟩ := d
  cases event with
  | claimed e claimer root' => exact ⟨_, rfl⟩
  | verificationStarted e => cases hd
  | challenged e challenger => cases hd
  | verified e => cases hd

/-- An epoch that was not stored is as it was, or its `Claimed` log has opened it. The page then has
the claim alone, or all that no later log writes to is there. -/
lemma halts_absent (hds : ds.Pairwise fun _ b => ¬b.Claims) (hp : p.opening = none)
    (h : Halts route grace ds p q) : q = p ∨ ∃ d ds', ds = d :: ds' ∧ d.Claims ∧ ¬p.Tasked ∧
      q.opening = d.stored.opening ∧ (q = d.stored ∨ ∀ c, d.stored.opening = some c →
        ∀ k, last route c.stateRoot ds' k = none → q.slots k = (d.opened route).slots k) := by
  rcases ds with _ | ⟨d, ds⟩
  · exact .inl h
  obtain ⟨hhead, -⟩ := List.pairwise_cons.mp hds
  rcases h with h | ⟨p', hturn, h⟩
  · cases h with
    | same => exact .inl rfl
    | stored hd _ ht => exact .inr ⟨d, ds, rfl, hd, ht, rfl, .inl rfl⟩
    | opened hd _ ht => exact .inr ⟨d, ds, rfl, hd, ht, rfl, .inr fun _ _ _ _ => rfl⟩
    | partly _ hp' =>
      rw [hp] at hp'
      cases hp'
  by_cases hd : d.Claims
  · by_cases ht : p.Tasked
    · rw [turn_tasked hd ht] at hturn
      obtain rfl := Option.some.inj hturn
      exact .inl (halts_missing hhead hp h)
    · rw [turn_opens hd ht hp] at hturn
      obtain rfl := Option.some.inj hturn
      obtain ⟨c, hc⟩ := opening_stored hd
      obtain ⟨hq, hs⟩ := halts_stored (p := d.opened route) hc h
      refine .inr ⟨d, ds, rfl, hd, ht, hq.trans hc.symm, .inr fun c' hc' => ?_⟩
      obtain rfl := Option.some.inj (hc.symm.trans hc')
      exact hs
  · rw [turn_missing hd hp] at hturn
    split at hturn
    · obtain rfl := Option.some.inj hturn
      exact .inl (halts_missing hhead hp h)
    · cases hturn

/-- What the first run has dropped was early enough. -/
lemma time_lt_of_turns {first : List Deed} {s t f : Page} (hfirst : first.Pairwise fun _ b => ¬b.Claims)
    (hrun : turns route grace first s = some f) (hstop : Halts route grace first s t)
    (ht : t.opening = none) (hskip : t.Tasked ∨ ∀ b ∈ first, ¬b.Claims) :
    ∀ d ∈ first, ¬d.Claims → d.time < grace := by
  cases hs : s.opening with
  | some c =>
    have hopen := (halts_stored hs hstop).1
    rw [ht] at hopen
    cases hopen
  | none =>
    rcases halts_absent hfirst hs hstop with rfl | ⟨d, l, -, hd, -, hopen, -⟩
    · rcases (turns_absent hfirst hs).mp hrun with ⟨d, l, rfl, hd, hfree, -⟩ | ⟨-, -, htimes⟩
      · rcases hskip with htask | hnone
        · exact absurd htask hfree
        · exact absurd hd (hnone d List.mem_cons_self)
      · exact htimes
    · obtain ⟨c, hc⟩ := opening_stored hd
      rw [ht, hc] at hopen
      cases hopen

/-! ### Logs that are handled again -/

/-- Only the first log of an epoch is its `Claimed` log. -/
lemma exists_cons_of_claims (hds : ds.Pairwise fun _ b => ¬b.Claims) (h : d ∈ ds) (hd : d.Claims) :
    ∃ ds', ds = d :: ds' := by
  rcases ds with _ | ⟨b, ds⟩
  · cases h
  rcases List.mem_cons.mp h with rfl | h
  · exact ⟨ds, rfl⟩
  · exact absurd hd ((List.pairwise_cons.mp hds).1 d h)

lemma fill_congr (hopen : p.opening = q.opening)
    (h : ∀ k, last route claimed ds k = none → p.slots k = q.slots k) :
    fill route claimed ds p = fill route claimed ds q :=
  Page.ext hopen (funext fun k => Patch.run_congr (h k))

/-- What some logs write is in place, as far as the logs after them do not write over it. -/
def Kept (route : Route) (claimed : Word) (ds ds' : List Deed) (p : Page) : Prop :=
  ∀ k, last route claimed ds' k = none → ∀ v, last route claimed ds k = some v → p.slots k = v

lemma fill_append_eq_iff : fill route claimed (ds ++ ds') p = fill route claimed ds' p ↔
    Kept route claimed ds ds' p := by
  have hslots : fill route claimed (ds ++ ds') p = fill route claimed ds' p ↔
      ∀ k, (fill route claimed (ds ++ ds') p).slots k = (fill route claimed ds' p).slots k := by
    rw [Page.ext_iff]
    exact ⟨fun h k => congrFun h.2 k, fun h => ⟨rfl, funext h⟩⟩
  rw [hslots]
  refine forall_congr' fun k => ?_
  rw [fill, fill, List.map_append]
  exact Patch.run_append_eq_iff

/-- A task is queued, or one of the logs takes the first task of the epoch back. -/
def Started (p : Page) (ds : List Deed) : Prop :=
  p.Tasked ∨ ∃ b ∈ ds, .validateClaim ∈ b.withdraws

/-- When the logs `again` of an epoch can be handled after a stop that leaves the page `t`, so that
the page becomes what the first logs would have made of `s`. The two lists are `ds ++ ds'` and `ds'`,
in either order: `ds` are the logs between the place the first ones begin at and the place the
others do. -/
structure Replayable (route : Route) (grace : ℕ) (s t : Page) (ds ds' again : List Deed) : Prop where
  /-- A claim that is there when its `Claimed` log is handled again has a task. -/
  claimed : ∀ d ∈ again, d.Claims → t.opening ≠ none → t.Tasked
  /-- The `Claimed` log of an epoch with neither claim nor task is not between the two places. -/
  between : ∀ d ∈ ds, d.Claims → t.opening = none → t.Tasked
  /-- A later log finds a claim, or is dropped. -/
  late : ∀ d ∈ again, ¬d.Claims → t.opening = none →
    (t.Tasked ∨ ∀ b ∈ again, ¬b.Claims) → d.time < grace
  /-- A claim that was stored before the stop, and whose `Claimed` log is passed over, has got its
  task, unless a later log takes that back. -/
  begun : ∀ d ∈ ds, d.Claims → s.opening = none → t.opening ≠ none → Started t (ds ++ ds')
  /-- What the logs between the two places write is in place. -/
  kept : ∀ c, t.opening = some c → Kept route c.stateRoot ds ds' t

/-- When the second run begins where the first one did. -/
lemma replayable_nil_iff {s t : Page} {again : List Deed} :
    Replayable route grace s t [] ds' again ↔
      (∀ d ∈ again, d.Claims → t.opening ≠ none → t.Tasked) ∧
      ∀ d ∈ again, ¬d.Claims → t.opening = none →
        (t.Tasked ∨ ∀ b ∈ again, ¬b.Claims) → d.time < grace := by
  constructor
  · exact fun h => ⟨h.claimed, h.late⟩
  · rintro ⟨hclaimed, hlate⟩
    refine ⟨hclaimed, (fun _ hd => by cases hd), hlate, (fun _ hd => by cases hd), ?_⟩
    intro c _ k _ v hv
    cases hv

section
variable {s t f : Page} {first again : List Deed} {e grace' : ℕ}

/-- What a later log has to write is lost on nobody. -/
lemma last_validateClaim {b : Deed} {task : Task} (hk : task.kind = .validateClaim)
    (hb : b ∈ ds) (he : task.epoch = b.epoch) (hw : .validateClaim ∈ b.withdraws) :
    last route claimed ds (.queued task) ≠ none := by
  intro hnone
  have hpatch := Patch.last_eq_none_iff.mp hnone _ (List.mem_map_of_mem hb)
  rw [withdraws_validateClaim hk he hw] at hpatch
  cases hpatch

lemma last_validateClaim_eq_none {task : Task} (hk : task.kind = .validateClaim)
    (hw : ∀ b ∈ ds, .validateClaim ∉ b.withdraws) : last route claimed ds (.queued task) = none := by
  refine Patch.last_eq_none_iff.mpr fun p hp => ?_
  obtain ⟨b, hb, rfl⟩ := List.mem_map.mp hp
  exact patch_validateClaim hk (hw b hb)

lemma kind_task (hd : d.Claims) : (d.task route).kind = .validateClaim := by
  obtain ⟨event, time, block, root⟩ := d
  cases event with
  | claimed e claimer root' => rfl
  | verificationStarted e => cases hd
  | challenged e challenger => cases hd
  | verified e => cases hd

lemma withdraws_of_claims (hd : d.Claims) : d.withdraws = [] := by
  obtain ⟨event, time, block, root⟩ := d
  cases event with
  | claimed e claimer root' => rfl
  | verificationStarted e => cases hd
  | challenged e challenger => cases hd
  | verified e => cases hd

/-- A page that a `Claimed` log has opened before the stop agrees with the one it would have opened,
but for the task, which is missing when the stop was right before it is queued. -/
lemma eq_opened (hd : d.Claims) (he : ∀ b ∈ d :: ds, b.epoch = e)
    (ht : t = d.stored ∨ ∀ k, last route claimed ds k = none → t.slots k = (d.opened route).slots k)
    (hstart : Started t (d :: ds)) :
    ∀ k, last route claimed ds k = none → t.slots k = (d.opened route).slots k := by
  rcases ht with rfl | ht
  · intro k hk
    rcases hstart with ⟨task, htask⟩ | ⟨b, hb, hw⟩
    · exact htask.elim
    have hmem : b ∈ ds := by
      rcases List.mem_cons.mp hb with rfl | hb
      · rw [withdraws_of_claims hd] at hw
        cases hw
      · exact hb
    cases k with
    | queued task =>
      refine propext ⟨False.elim, ?_⟩
      rintro rfl
      have hepoch : (d.task route).epoch = b.epoch := by
        rw [epoch_task, he d List.mem_cons_self, he b hb]
      exact absurd hk (last_validateClaim (kind_task hd) hmem hepoch hw)
    | verification => rfl
    | challenger => rfl
    | honest => rfl
  · exact ht

/-- Without its first task the page is not what it would have been. -/
lemma fill_opened_ne (hd : d.Claims) (hsub : again ⊆ d :: ds) (hstart : ¬Started t (d :: ds)) :
    fill route claimed ds (d.opened route) ≠ fill route claimed again t := by
  intro heq
  have hno : ∀ b ∈ d :: ds, .validateClaim ∉ b.withdraws := fun b hb hw =>
    hstart (.inr ⟨b, hb, hw⟩)
  have hslot : (fill route claimed ds (d.opened route)).slots (.queued (d.task route)) =
      (fill route claimed again t).slots (.queued (d.task route)) := by rw [heq]
  have hkind : (d.task route).kind = .validateClaim := kind_task hd
  have hleft : (fill route claimed ds (d.opened route)).slots (.queued (d.task route)) = True := by
    have hlast : last route claimed ds (.queued (d.task route)) = none :=
      last_validateClaim_eq_none hkind fun b hb => hno b (List.mem_cons_of_mem _ hb)
    exact (Patch.run_of_none hlast).trans (eq_self _)
  have hright : (fill route claimed again t).slots (.queued (d.task route)) =
      t.slots (.queued (d.task route)) :=
    Patch.run_of_none (last_validateClaim_eq_none hkind fun b hb => hno b (hsub hb))
  rw [hleft, hright] at hslot
  exact hstart (.inl ⟨_, of_eq_true hslot.symm⟩)

/-- The page of an epoch that its `Claimed` log has opened. -/
lemma turns_opened (hd : d.Claims) (hds : ∀ b ∈ ds, ¬b.Claims)
    (h : turns route grace ds (d.opened route) = some q) :
    ∃ c, d.stored.opening = some c ∧ q = fill route c.stateRoot ds (d.opened route) := by
  obtain ⟨c, hc⟩ := opening_stored hd
  have hopen : (d.opened route).opening = some c := hc
  have hturns : turns route grace ds (d.opened route) = _ := turns_later hds hopen
  exact ⟨c, hc, Option.some.inj (h.symm.trans hturns)⟩

/-- The `Claimed` log of the first run is passed over by the second, or both are of the same logs. -/
lemma passed_or_same (hone : (ds ++ ds').Pairwise fun _ b => ¬b.Claims)
    (hlists : (first = ds' ∧ again = ds ++ ds') ∨ (first = ds ++ ds' ∧ again = ds'))
    (hd : d ∈ first) (hc : d.Claims) :
    (d ∈ ds ∧ first = ds ++ ds' ∧ again = ds') ∨ (ds = [] ∧ again = first) := by
  have hnil : d ∈ ds' → ds = [] := by
    intro hmem
    rcases ds with _ | ⟨b, l⟩
    · rfl
    · exact absurd hc ((List.pairwise_cons.mp hone).1 d (List.mem_append_right _ hmem))
  rcases hlists with ⟨rfl, rfl⟩ | ⟨rfl, rfl⟩
  · have h := hnil hd
    exact .inr ⟨h, by rw [h, List.nil_append]⟩
  · rcases List.mem_append.mp hd with hd | hd
    · exact .inl ⟨hd, rfl, rfl⟩
    · have h := hnil hd
      exact .inr ⟨h, by rw [h, List.nil_append]⟩

/-- Neither of the two runs has a `Claimed` log behind another one. -/
lemma pairwise_lists (hone : (ds ++ ds').Pairwise fun _ b => ¬b.Claims)
    (hlists : (first = ds' ∧ again = ds ++ ds') ∨ (first = ds ++ ds' ∧ again = ds')) :
    (first.Pairwise fun _ b => ¬b.Claims) ∧ again.Pairwise fun _ b => ¬b.Claims := by
  have hds' : ds'.Pairwise fun _ b => ¬b.Claims := hone.sublist (List.sublist_append_right ds ds')
  rcases hlists with ⟨rfl, rfl⟩ | ⟨rfl, rfl⟩
  · exact ⟨hds', hone⟩
  · exact ⟨hone, hds'⟩

/-- Nothing has happened to the epoch before the stop. -/
lemma turns_again_absent (hone : (ds ++ ds').Pairwise fun _ b => ¬b.Claims)
    (hlists : (first = ds' ∧ again = ds ++ ds') ∨ (first = ds ++ ds' ∧ again = ds'))
    (ht : t.opening = none) (hrun : turns route grace first t = some f) :
    turns route grace' again t = some f ↔ Replayable route grace' s t ds ds' again := by
  obtain ⟨hfirst, hagain⟩ := pairwise_lists hone hlists
  -- what speaks of a stored claim is empty here
  have hnot : ∀ P : Prop, t.opening ≠ none → P := fun P h => absurd ht h
  have hkept : ∀ c, t.opening = some c → Kept route c.stateRoot ds ds' t := fun c hc => by
    rw [ht] at hc
    cases hc
  rw [turns_absent hagain ht]
  rcases (turns_absent hfirst ht).mp hrun with ⟨d, l, hcons, hd, hfree, hopened⟩ | ⟨hskip, rfl, -⟩
  · have hl : ∀ b ∈ l, ¬b.Claims := (List.pairwise_cons.mp (hcons ▸ hfirst)).1
    obtain ⟨c, hc, rfl⟩ := turns_opened hd hl hopened
    rcases passed_or_same hone hlists (hcons ▸ List.mem_cons_self) hd with
      ⟨hmem, hsplit, rfl⟩ | ⟨rfl, rfl⟩
    · have hbehind : ∀ b ∈ again, ¬b.Claims := fun b hb => by
        obtain ⟨l', rfl⟩ := exists_cons_of_claims (hone.sublist (List.sublist_append_left _ _)) hmem hd
        exact (List.pairwise_cons.mp hone).1 b (List.mem_append_right _ hb)
      constructor
      · rintro (⟨b, bs, rfl, hb, -⟩ | ⟨-, heq, -⟩)
        · exact absurd hb (hbehind b List.mem_cons_self)
        · rw [← heq] at ht
          exact absurd (hc.symm.trans ht) (Option.some_ne_none c)
      · exact fun h => absurd (h.between d hmem hd ht) hfree
    · have hopen : (d.opened route).opening = some c := hc
      refine ⟨fun _ => ⟨fun _ _ _ => hnot _, (fun _ h => by cases h), fun b _ _ _ hb => ?_,
        (fun _ h => by cases h), hkept⟩, fun _ => .inl ⟨d, l, hcons, hd, hfree, turns_later hl hopen⟩⟩
      exact absurd hd (hb.resolve_left hfree d (hcons ▸ List.mem_cons_self))
  · by_cases htask : f.Tasked
    · refine ⟨fun h => ?_, fun h => .inr ⟨.inl htask, rfl, fun d hd hc => h.late d hd hc ht (.inl htask)⟩⟩
      have htimes := (h.resolve_left fun ⟨_, _, _, _, hfree, _⟩ => hfree htask).2.2
      exact ⟨fun _ _ _ => hnot _, fun _ _ _ _ => htask, fun d hd hc _ _ => htimes d hd hc,
        fun _ _ _ _ => hnot _, hkept⟩
    have hnone : ∀ d ∈ first, ¬d.Claims := hskip.resolve_left htask
    by_cases hclaim : ∃ d ∈ again, d.Claims
    · -- the second run begins before a `Claimed` log
      obtain ⟨d, hd, hc⟩ := hclaim
      have hmem : d ∈ ds := by
        rcases hlists with ⟨rfl, rfl⟩ | ⟨rfl, rfl⟩
        · exact (List.mem_append.mp hd).resolve_right fun h => hnone d h hc
        · exact absurd hc (hnone d (List.mem_append_right _ hd))
      constructor
      · rintro (⟨b, bs, hcons, hb, -, hopened⟩ | ⟨h, -, -⟩)
        · obtain ⟨c, hcb, heq⟩ := turns_opened hb (List.pairwise_cons.mp (hcons ▸ hagain)).1 hopened
          rw [heq] at ht
          exact absurd (hcb.symm.trans ht) (Option.some_ne_none c)
        · exact absurd hc (h.resolve_left htask d hd)
      · exact fun h => absurd (h.between d hmem hc ht) htask
    · have hclaim' : ∀ d ∈ again, ¬d.Claims := fun d hd hc => hclaim ⟨d, hd, hc⟩
      refine ⟨fun h => ?_, fun h => .inr ⟨.inr hclaim', rfl, fun d hd hc => h.late d hd hc ht (.inr hclaim')⟩⟩
      have htimes : ∀ d ∈ again, ¬d.Claims → d.time < grace' := by
        rcases h with ⟨b, bs, hcons, hb, -⟩ | h
        · exact absurd hb (hclaim' b (hcons ▸ List.mem_cons_self))
        · exact h.2.2
      refine ⟨fun _ _ _ => hnot _, fun d hd hc => ?_, fun d hd hc _ _ => htimes d hd hc,
        fun _ _ _ _ => hnot _, hkept⟩
      -- a log of `ds` is in one of the two lists
      rcases hlists with ⟨rfl, rfl⟩ | ⟨rfl, rfl⟩
      · exact absurd hc (hclaim' d (List.mem_append_left _ hd))
      · exact absurd hc (hnone d (List.mem_append_left _ hd))

lemma fill_eq_fill_iff
    (hlists : (first = ds' ∧ again = ds ++ ds') ∨ (first = ds ++ ds' ∧ again = ds')) :
    fill route claimed first t = fill route claimed again t ↔ Kept route claimed ds ds' t := by
  rcases hlists with ⟨rfl, rfl⟩ | ⟨rfl, rfl⟩
  · rw [← fill_append_eq_iff, eq_comm]
  · exact fill_append_eq_iff

/-- The claim is stored at the stop, and the first run would have filled in the rest of the page. -/
lemma replayable_iff_of_fill
    (hlists : (first = ds' ∧ again = ds ++ ds') ∨ (first = ds ++ ds' ∧ again = ds'))
    (ht : t.opening = some c) (hf : f = fill route c.stateRoot first t)
    (hbegun : ∀ d ∈ ds, d.Claims → s.opening = none → t.opening ≠ none → Started t (ds ++ ds')) :
    ((∀ d ∈ again, d.Claims → t.Tasked) ∧ f = fill route c.stateRoot again t) ↔
      Replayable route grace' s t ds ds' again := by
  have hne : t.opening ≠ none := by
    rw [ht]
    exact Option.some_ne_none c
  rw [hf, fill_eq_fill_iff hlists]
  constructor
  · rintro ⟨hclaimed, hkept⟩
    refine ⟨fun d hd hc _ => hclaimed d hd hc, fun d _ _ h => absurd h hne,
      fun d _ _ h => absurd h hne, hbegun, fun c' hc' => ?_⟩
    obtain rfl := Option.some.inj (ht.symm.trans hc')
    exact hkept
  · exact fun h => ⟨fun d hd hc => h.claimed d hd hc hne, h.kept c ht⟩

lemma turns_again_stored (hone : (ds ++ ds').Pairwise fun _ b => ¬b.Claims)
    (he : ∀ d ∈ ds ++ ds', d.epoch = e)
    (hlists : (first = ds' ∧ again = ds ++ ds') ∨ (first = ds ++ ds' ∧ again = ds'))
    (ht : t.opening = some c) (hrun : turns route grace first s = some f)
    (hstop : Halts route grace first s t) :
    turns route grace' again t = some f ↔ Replayable route grace' s t ds ds' again := by
  obtain ⟨hfirst, hagain⟩ := pairwise_lists hone hlists
  have hsub : first ⊆ ds ++ ds' := by
    rcases hlists with ⟨rfl, -⟩ | ⟨rfl, -⟩
    · exact List.subset_append_right _ _
    · exact List.Subset.refl _
  rw [turns_stored hagain ht]
  cases hs : s.opening with
  | some c' =>
    obtain ⟨hopen, hslots⟩ := halts_stored hs hstop
    obtain rfl := Option.some.inj (ht.symm.trans hopen)
    have hf : f = fill route c.stateRoot first t := by
      rw [((turns_stored hfirst hs).mp hrun).2]
      exact fill_congr (hs.trans ht.symm) fun k hk => (hslots k hk).symm
    refine replayable_iff_of_fill hlists ht hf fun d _ _ hnone => ?_
    rw [hs] at hnone
    cases hnone
  | none =>
    rcases halts_absent hfirst hs hstop with rfl | ⟨d, l, rfl, hd, hfree, hopen, hslots⟩
    · rw [hs] at ht
      cases ht
    have hl : ∀ b ∈ l, ¬b.Claims := (List.pairwise_cons.mp hfirst).1
    have hf : f = fill route c.stateRoot l (d.opened route) := by
      rcases (turns_absent hfirst hs).mp hrun with ⟨b, bs, hcons, -, -, hopened⟩ | ⟨h, -⟩
      · cases hcons
        obtain ⟨c', hc', rfl⟩ := turns_opened hd hl hopened
        obtain rfl := Option.some.inj (hc'.symm.trans (hopen.symm.trans ht))
        rfl
      · exact absurd hd (h.resolve_left hfree d List.mem_cons_self)
    by_cases hstart : Started t (d :: l)
    · have hagree := eq_opened hd (fun b hb => he b (hsub hb)) (hslots.imp_right fun h =>
        h c (hopen.symm.trans ht)) hstart
      have hf' : f = fill route c.stateRoot (d :: l) t := by
        rw [hf, fill_cons_of_claims hd]
        exact fill_congr hopen.symm fun k hk => (hagree k hk).symm
      exact replayable_iff_of_fill hlists ht hf' fun _ _ _ _ _ =>
        hstart.imp_right fun ⟨b, hb, hw⟩ => ⟨b, hsub hb, hw⟩
    · -- its first task is missing and nobody takes it back
      rcases passed_or_same hone hlists List.mem_cons_self hd with ⟨hmem, hsplit, rfl⟩ | ⟨rfl, rfl⟩
      · have hagain' : again ⊆ d :: l := hsplit ▸ List.subset_append_right ds again
        refine ⟨fun h => absurd h.2 (hf ▸ fill_opened_ne hd hagain' hstart), fun h => ?_⟩
        have hne : t.opening ≠ none := by
          rw [ht]
          exact Option.some_ne_none c
        exact absurd (hsplit ▸ h.begun d hmem hd hs hne) hstart
      · refine ⟨fun h => absurd h.2 (hf ▸ fill_opened_ne hd (List.Subset.refl _) hstart), fun h => ?_⟩
        have hne : t.opening ≠ none := by
          rw [ht]
          exact Option.some_ne_none c
        exact absurd (.inl (h.claimed d List.mem_cons_self hd hne)) hstart

/-- **When logs can be handled again.** A run over logs of an epoch is stopped, and another one,
which begins at the same place, before or behind it, ends with the page the first would have ended
with, if and only if the page at the stop is `Replayable`. -/
theorem turns_again_iff (hone : (ds ++ ds').Pairwise fun _ b => ¬b.Claims)
    (he : ∀ d ∈ ds ++ ds', d.epoch = e)
    (hlists : (first = ds' ∧ again = ds ++ ds') ∨ (first = ds ++ ds' ∧ again = ds'))
    (hrun : turns route grace first s = some f) (hstop : Halts route grace first s t) :
    turns route grace' again t = some f ↔ Replayable route grace' s t ds ds' again := by
  cases ht : t.opening with
  | some c => exact turns_again_stored hone he hlists ht hrun hstop
  | none =>
    have hfirst : first.Pairwise fun _ b => ¬b.Claims := by
      rcases hlists with ⟨rfl, -⟩ | ⟨rfl, -⟩
      · exact hone.sublist (List.sublist_append_right ds first)
      · exact hone
    cases hs : s.opening with
    | some c =>
      have hopen := (halts_stored hs hstop).1
      rw [ht] at hopen
      cases hopen
    | none =>
      rcases halts_absent hfirst hs hstop with rfl | ⟨d, l, -, hd, -, hopen, -⟩
      · exact turns_again_absent hone hlists ht hrun
      · obtain ⟨c, hc⟩ := opening_stored hd
        rw [ht, hc] at hopen
        cases hopen

end

end Deed

end VeaValidator
