import VeaValidator.Interleaving

/-!
The claims file as a mirror of the outbox.

The outbox keeps only the hash of a claim, so a call for an epoch needs the whole `Claim` as
the contract has it. The indexer rebuilds it from the logs. Here the contract is a step
function on claims, the handlers are another one, and the two are compared.
-/

namespace VeaValidator

open Coop

/-! ### The contract -/

namespace Outbox

/-- The claim after `Claimed`, in a block with this timestamp. -/
def made (claimer : Address) (stateRoot : Word) (ts : ℕ) : Claim :=
  ⟨stateRoot, claimer, u32 ts, 0, 0, .none, 0⟩

/-- The claim after a later event, in a block with this number and timestamp. -/
def step (snap : Word) (number ts : ℕ) (c : Claim) : Event → Claim
  | .claimed _ _ _ => c
  | .verificationStarted _ =>
    { c with timestampVerification := u32 ts, blocknumberVerification := u32 number }
  | .challenged _ challenger => { c with challenger }
  | .verified _ =>
    { c with honest := if c.challenger = 0 ∨ c.stateRoot = snap then .claimer else .challenger }

end Outbox

namespace Mirror

/-- The claim the handlers make of a stored one. -/
def step (snap : Word) (number ts : ℕ) (c : Claim) : Event → Claim
  | .claimed _ _ _ => c
  | .verificationStarted _ =>
    { c with timestampVerification := u32 ts, blocknumberVerification := u32 number }
  | .challenged _ challenger => { c with challenger }
  | .verified _ => { c with honest := if c.stateRoot = snap then .claimer else .challenger }

/-! ### Histories of an epoch -/

/-- A well-formed log of the outbox chain, with its event and its block. -/
structure Mined (blockTs : ℕ → ℕ) where
  log : Log
  event : Event
  number : ℕ
  decodes : log.event? = some event
  block : log.blockNumber = some number
  time : ∀ ts, log.blockTimestamp = some ts → ts = blockTs number

/-- What happens to the claim of epoch `e` on chain. -/
structure History (blockTs : ℕ → ℕ) (e : ℕ) where
  first : Mined blockTs
  claimer : Address
  root : Word
  claims : first.event = .claimed e claimer root
  middle : List (Mined blockTs)
  disputes : ∀ m ∈ middle,
    m.event = .verificationStarted e ∨ ∃ challenger, m.event = .challenged e challenger
  last : Option (Mined blockTs)
  verifies : ∀ m ∈ last, m.event = .verified e

variable {blockTs : ℕ → ℕ} {e : ℕ}

/-- The logs the indexer is given. -/
def Mined.target (m : Mined blockTs) : ScanTarget × Log := (.outbox, m.log)

namespace History

variable (H : History blockTs e) (snap : Word)

def logs : List (ScanTarget × Log) :=
  (H.first :: (H.middle ++ H.last.toList)).map Mined.target

/-- The claim a step function makes of the history. -/
def fold (f : ℕ → ℕ → Claim → Event → Claim) : Claim :=
  (H.middle ++ H.last.toList).foldl (fun c m => f m.number (blockTs m.number) c m.event)
    (Outbox.made H.claimer H.root (blockTs H.first.number))

/-- The claim whose hash the outbox holds. -/
def claim : Claim := H.fold (Outbox.step snap)

/-- The claim the handlers make. -/
def kept : Claim := H.fold (Mirror.step snap)

/-- The claim both have before it is verified. -/
def disputed : Claim :=
  H.middle.foldl (fun c m => Outbox.step snap m.number (blockTs m.number) c m.event)
    (Outbox.made H.claimer H.root (blockTs H.first.number))

lemma foldl_middle : H.middle.foldl
      (fun c m => Mirror.step snap m.number (blockTs m.number) c m.event)
      (Outbox.made H.claimer H.root (blockTs H.first.number)) = H.disputed snap := by
  refine List.foldl_ext _ _ _ fun c m hm => ?_
  rcases H.disputes m hm with h | ⟨challenger, h⟩ <;> rw [h] <;> rfl

lemma stateRoot_foldl (l : List (Mined blockTs)) (c : Claim) :
    (l.foldl (fun c m => Outbox.step snap m.number (blockTs m.number) c m.event) c).stateRoot =
      c.stateRoot := by
  induction l generalizing c with
  | nil => rfl
  | cons m l ih =>
    rw [List.foldl_cons, ih]
    cases m.event <;> rfl

lemma stateRoot_disputed : (H.disputed snap).stateRoot = H.root :=
  stateRoot_foldl snap H.middle _

/-- The two step functions disagree on a wrong claim that is verified without a challenger. -/
lemma kept_eq_claim_iff : H.kept snap = H.claim snap ↔
    ¬(H.last ≠ none ∧ (H.claim snap).challenger = 0 ∧ H.root ≠ snap) := by
  have hroot := H.stateRoot_disputed snap
  unfold kept claim fold
  rw [List.foldl_append, List.foldl_append, foldl_middle]
  show _ = (H.last.toList.foldl _ (H.disputed snap)) ↔
    ¬(_ ∧ (H.last.toList.foldl _ (H.disputed snap)).challenger = 0 ∧ _)
  cases hlast : H.last with
  | none => simp
  | some m =>
    have hm := H.verifies m (by simp [hlast])
    simp only [Option.toList_some, List.foldl_cons, List.foldl_nil, hm, step, Outbox.step, hroot]
    by_cases hsnap : H.root = snap
    · simp [hsnap]
    · by_cases hzero : (H.disputed snap).challenger = 0 <;> simp [hsnap, hzero]

end History

/-! ### The handlers -/

/-- The answers of nodes of this chain, when they do not fail. -/
def Answers (blockTs : ℕ → ℕ) (snap : ℕ → Word) : (q : Query) → q.Answer → World → Prop
  | .blockByNumber .outbox (.number n), .ok (some block), _ => block.timestamp = blockTs n
  | .snapshots e, .ok root, _ => root = snap e
  | _, _, _ => True

/-- The one stored claim of `e` is `c` to `get_claim`. -/
def Holds (e : ℕ) (c : Claim) (w : World) : Prop := ∃ d, w.entries e = [d] ∧ d.toClaim = c

variable {snap : ℕ → Word} {rely : World → World → Prop} {route : Route} {s t : World} {c : Claim}

variable (blockTs snap rely) in
abbrev among : Protocol Unit World Panic Query.Answer :=
  .disturbed rely (Answers blockTs snap) fun _ _ => True

lemma patient {J : World → Prop} (h : ∀ s t, J s → rely s t → J t) :
    Patient (among blockTs snap rely) () J where
  rely s t hJ ht _ := h s t hJ ht
  issue _ _ _ _ _ := trivial
  fault _ _ _ _ _ := trivial

lemma Holds.claim? (h : Holds e c s) : ∃ d, s.claim? e = some d ∧ s.entries e = [d] ∧
    d.toClaim = c := by
  obtain ⟨d, hd, hc⟩ := h
  refine ⟨d, ?_, hd, hc⟩
  rw [World.claim?_eq_head?_entries, hd, List.head?_cons]

lemma holds_updateClaim {f : ClaimData → ClaimData} {c' : Claim} (h : Holds e c s)
    (hf : ∀ d, (f d).epoch = d.epoch) (hc : ∀ d, d.toClaim = c → (f d).toClaim = c') :
    Holds e c' (s.updateClaim e f) := by
  obtain ⟨d, hd, hdc⟩ := h
  exact ⟨f d, World.entries_updateClaim hf hd, hc d hdc⟩

lemma timeOf_mined {m : Mined blockTs} {ts : ℕ}
    (h : Indexer.TimeOf (among blockTs snap rely) () .outbox m.log ts) :
    ts = blockTs m.number := by
  unfold Indexer.TimeOf at h
  cases htime : m.log.blockTimestamp with
  | some n =>
    simp only [htime] at h
    rw [h]
    exact m.time n htime
  | none =>
    simp only [htime] at h
    obtain ⟨n, b, t, hn, rfl, ha⟩ := h
    obtain rfl : m.number = n := Option.some.inj (m.block.symm.trans hn)
    exact ha

/-- Every handler makes its step. -/
lemma wp_act (hrely : ∀ s t, rely s t → t.entries e = s.entries e) {m : Mined blockTs}
    (he : m.event.epoch = e) (hclaimed : ∀ claimer root, m.event ≠ .claimed e claimer root)
    (h : Holds e c s) : (Indexer.act route m.log m.event).wp (among blockTs snap rely) ()
      (fun _ => Holds e (step (snap e) m.number (blockTs m.number) c m.event)) s := by
  have hstay : ∀ c s t, Holds e c s → rely s t → Holds e c t := by
    rintro c s t ⟨d, hd, hc⟩ ht
    exact ⟨d, (hrely s t ht).trans hd, hc⟩
  have hp : Patient (among blockTs snap rely) () (Holds e c) := patient (hstay c)
  have hstored : s.claim? e ≠ none := by
    obtain ⟨d, hd, -⟩ := h.claim?
    rw [hd]
    exact Option.some_ne_none d
  generalize hev : m.event = event at he hclaimed
  cases event with
  | claimed e' claimer root =>
    have he' : e' = e := he
    subst he'
    exact absurd rfl (hclaimed claimer root)
  | verificationStarted e' =>
    have he' : e' = e := he
    subst he'
    refine Indexer.wp_verificationStarted hp trivial h (fun hnone => absurd hnone hstored)
      fun _ ts n t hts hn _ ht => ?_
    obtain rfl := timeOf_mined hts
    obtain rfl : m.number = n := Option.some.inj (m.block.symm.trans hn)
    have hu := holds_updateClaim (f := ClaimData.startVerification (u32 (blockTs m.number))
      (u32 m.number)) ht (fun _ => rfl) fun d hd => congrArg (fun c : Claim =>
        { c with timestampVerification := u32 (blockTs m.number)
                 blocknumberVerification := u32 m.number }) hd
    rw [Prog.wp_bind, wp_update]
    exact ⟨fun _ => ⟨trivial, trivial⟩, fun _ _ => ⟨trivial, trivial, trivial, trivial, trivial,
      trivial, hu⟩⟩
  | challenged e' challenger =>
    have he' : e' = e := he
    subst he'
    have hu := holds_updateClaim (f := ClaimData.challengeBy challenger) h (fun _ => rfl)
      fun d hd => congrArg (fun c : Claim => { c with challenger }) hd
    have hp' : Patient (among blockTs snap rely) () (Holds e' { c with challenger }) :=
      patient (hstay _)
    refine Indexer.wp_challenged hp hp' trivial h
      (fun hnone => absurd hnone hstored) fun _ => ?_
    rw [Prog.wp_bind, wp_update]
    exact ⟨fun _ => ⟨trivial, trivial⟩, fun _ _ => ⟨trivial, trivial, trivial, trivial, trivial,
      hu, fun _ _ _ _ hv => ⟨trivial, trivial, hv⟩⟩⟩
  | verified e' =>
    have he' : e' = e := he
    subst he'
    refine Indexer.wp_verified (D := fun d _ => d.toClaim = c) hp trivial h
      (fun _ _ _ => trivial) (fun t d _ ht hd => ?_) (fun _ _ _ hd _ _ _ => hd)
      (fun ts t _ _ ht hnone => ?_) fun ts d root t _ ha _ ht hd => ?_
    · obtain ⟨d', hd', -, hc⟩ := ht.claim?
      obtain rfl : d' = d := Option.some.inj (hd'.symm.trans hd)
      exact hc
    · obtain ⟨d, hd, -⟩ := ht.claim?
      rw [hd] at hnone
      cases hnone
    · have hroot : root = snap e' := ha
      have hsettle : ∀ d', d'.toClaim = c → (ClaimData.settle
          (if d.stateRoot = root then "Claimer" else "Challenger") d').toClaim =
            step (snap e') m.number (blockTs m.number) c (.verified e') := by
        intro d' hd'
        have hsame : d.stateRoot = c.stateRoot := congrArg Claim.stateRoot hd
        rw [hroot, hsame, step]
        subst hd'
        by_cases hr : d'.stateRoot = snap e'
        · simp [ClaimData.settle, ClaimData.toClaim, partyOf, hr]
        · simp [ClaimData.settle, ClaimData.toClaim, partyOf, hr]
      have hu := holds_updateClaim (f := ClaimData.settle _) ht (fun _ => rfl) hsettle
      rw [Prog.wp_bind, wp_update]
      exact ⟨fun _ => ⟨trivial, trivial⟩, fun _ _ => ⟨trivial, trivial, trivial, trivial, trivial,
        trivial, hu⟩⟩

/-- An event without a stored claim leaves it so. -/
lemma wp_act_missing (hrely : ∀ s t, rely s t → t.entries e = s.entries e) {log : Log}
    {event : Event} (he : event.epoch = e)
    (hclaimed : ∀ claimer root, event ≠ .claimed e claimer root) (h : s.entries e = []) :
    (Indexer.act route log event).wp (among blockTs snap rely) ()
      (fun _ t => t.entries e = []) s := by
  have hp : Patient (among blockTs snap rely) () fun t => t.entries e = [] :=
    patient fun s t hs ht => (hrely s t ht).trans hs
  have hnone : ∀ t : World, t.entries e = [] → t.claim? e = none := fun t ht => by
    rw [World.claim?_eq_head?_entries, ht, List.head?_nil]
  have hmissing : ∀ ts t, t.entries e = [] → (Indexer.missingClaim route e ts).wp
      (among blockTs snap rely) () (fun _ t => t.entries e = []) t := fun ts t ht =>
    Indexer.wp_missingClaim (fun _ => ht) fun _ => ⟨trivial, trivial⟩
  cases event with
  | claimed e' claimer root =>
    have he' : e' = e := he
    subst he'
    exact absurd rfl (hclaimed claimer root)
  | verificationStarted e' =>
    have he' : e' = e := he
    subst he'
    exact Indexer.wp_verificationStarted hp trivial h (fun _ ts t _ _ ht => hmissing ts t ht)
      fun hstored => absurd (hnone s h) hstored
  | challenged e' challenger =>
    have he' : e' = e := he
    subst he'
    exact Indexer.wp_challenged hp hp trivial h (fun _ ts t _ _ ht => hmissing ts t ht)
      fun hstored => absurd (hnone s h) hstored
  | verified e' =>
    have he' : e' = e := he
    subst he'
    refine Indexer.wp_verified (D := fun _ _ => False) hp trivial h (fun _ _ _ => trivial)
      (fun t d _ ht hd => ?_) (fun _ _ _ hd _ _ _ => hd) (fun ts t _ _ ht _ => hmissing ts t ht)
      fun _ _ _ _ _ _ _ _ hd => hd.elim
    rw [hnone t ht] at hd
    cases hd

/-- The handler of a well-formed log acts, and then says so. -/
lemma wp_handle {m : Mined blockTs} {R : World → Prop} (hnote : ∀ t o, R t → R (t.note o))
    (h : (Indexer.act route m.log m.event).wp (among blockTs snap rely) () (fun _ => R) s) :
    (Indexer.handle route .outbox m.log).wp (among blockTs snap rely) () (fun _ => R) s := by
  have heq := Indexer.dispatchOutboxEvent_eq route m.log
  simp only [m.decodes] at heq
  rw [Indexer.handle, Indexer.dispatch, heq, Prog.wp_bind]
  exact Prog.wp_mono (fun _ t ht => ⟨trivial, trivial, hnote t _ ht⟩) h

/-! ### A whole history -/

/-- Events that come after the claim. -/
def Later (e : ℕ) (ms : List (Mined blockTs)) : Prop :=
  ∀ m ∈ ms, m.event.epoch = e ∧ ∀ claimer root, m.event ≠ .claimed e claimer root

lemma History.later (H : History blockTs e) : Later e (H.middle ++ H.last.toList) := by
  intro m hm
  rcases List.mem_append.mp hm with hm | hm
  · rcases H.disputes m hm with h | ⟨challenger, h⟩ <;> rw [h] <;> exact ⟨rfl, nofun⟩
  · rw [H.verifies m (by simpa using hm)]
    exact ⟨rfl, nofun⟩

lemma wp_later (hrely : ∀ s t, rely s t → t.entries e = s.entries e) {ms : List (Mined blockTs)}
    (hms : Later e ms) (h : Holds e c s) :
    (Indexer.deliver route (ms.map Mined.target)).wp (among blockTs snap rely) ()
      (fun _ => Holds e (ms.foldl
        (fun c m => step (snap e) m.number (blockTs m.number) c m.event) c)) s := by
  induction ms generalizing c s with
  | nil => exact h
  | cons m ms ih =>
    obtain ⟨he, hclaimed⟩ := hms m List.mem_cons_self
    rw [List.map_cons, Indexer.wp_deliver_cons, wp_sleep]
    refine ⟨trivial, trivial, fun t ht _ _ _ => ?_⟩
    have hHt : Holds e c t := by
      obtain ⟨d, hd, hc⟩ := h
      exact ⟨d, (hrely s t ht).trans hd, hc⟩
    refine Prog.wp_mono (fun _ u hu => ?_) (wp_handle (R := Holds e _) (fun _ _ hu => hu)
      (wp_act hrely he hclaimed hHt))
    exact ih (fun m hm => hms m (List.mem_cons_of_mem _ hm)) hu

lemma wp_later_missing (hrely : ∀ s t, rely s t → t.entries e = s.entries e)
    {ms : List (Mined blockTs)} (hms : Later e ms) (h : s.entries e = []) :
    (Indexer.deliver route (ms.map Mined.target)).wp (among blockTs snap rely) ()
      (fun _ t => t.entries e = []) s := by
  induction ms generalizing s with
  | nil => exact h
  | cons m ms ih =>
    obtain ⟨he, hclaimed⟩ := hms m List.mem_cons_self
    rw [List.map_cons, Indexer.wp_deliver_cons, wp_sleep]
    refine ⟨trivial, trivial, fun t ht _ _ _ => ?_⟩
    refine Prog.wp_mono (fun _ u hu => ?_) (wp_handle (R := fun t => t.entries e = [])
      (fun _ _ hu => hu) (wp_act_missing hrely he hclaimed ((hrely s t ht).trans h)))
    exact ih (fun m hm => hms m (List.mem_cons_of_mem _ hm)) hu

/-- The `Claimed` log makes the claim of the contract, unless the epoch has a task. -/
lemma wp_first (H : History blockTs e) (hrely : ∀ s t, rely s t → t.entries e = s.entries e)
    {busy : Prop} (hbusy : ∀ s t, rely s t → s.entries e = [] →
      ((∃ task ∈ s.schedule.tasks, task.epoch = e) ↔ busy) →
      ((∃ task ∈ t.schedule.tasks, task.epoch = e) ↔ busy))
    (h : s.entries e = []) (hs : (∃ task ∈ s.schedule.tasks, task.epoch = e) ↔ busy) :
    (Indexer.handle route .outbox H.first.log).wp (among blockTs snap rely) () (fun _ t =>
      (¬busy ∧ Holds e (Outbox.made H.claimer H.root (blockTs H.first.number)) t) ∨
      (busy ∧ t.entries e = [])) s := by
  have hp : Patient (among blockTs snap rely) () fun t => t.entries e = [] ∧
      ((∃ task ∈ t.schedule.tasks, task.epoch = e) ↔ busy) :=
    patient fun s t ht hrel => ⟨(hrely s t hrel).trans ht.1, hbusy s t hrel ht.1 ht.2⟩
  refine wp_handle (fun _ _ ht => ht) ?_
  rw [H.claims]
  refine Indexer.wp_claimed hp trivial ⟨h, hs⟩ (fun t _ ht hany => .inr ⟨ht.2.mp hany, ht.1⟩)
    fun ts t hts _ ht hno => ?_
  obtain rfl := timeOf_mined hts
  have hfree : ¬busy := fun hb => by
    obtain ⟨task, htask, he⟩ := ht.2.mpr hb
    exact hno task htask he
  have hnew : (t.storeClaim (ClaimData.fresh e H.root H.claimer
      (u32 (blockTs H.first.number)))).entries e =
        [ClaimData.fresh e H.root H.claimer (u32 (blockTs H.first.number))] := by
    rw [World.entries_storeClaim, ht.1, List.nil_append]
    exact if_pos rfl
  rw [Prog.wp_bind, wp_store]
  exact ⟨fun _ => ⟨trivial, trivial⟩, fun _ => ⟨trivial, trivial, trivial, trivial,
    .inl ⟨hfree, _, hnew, rfl⟩⟩⟩

lemma burst_getClaim : (ClaimStore.getClaim e).burst t = match t.entries e with
    | [] => (t, .panic (.noClaimFound e))
    | [d] => (t, pure d.toClaim)
    | _ => (t, .panic (.multipleClaims e)) := by
  have hget : (ClaimStore.getClaim e).burst t = Prog.burst (Prog.bind (match t.entries e with
    | [] => .panic (.noClaimFound e)
    | [claim] => pure claim
    | _ => .panic (.multipleClaims e) : M ClaimData) fun c => pure c.toClaim) t := rfl
  rw [hget]
  rcases t.entries e with _ | ⟨d, _ | ⟨d', l⟩⟩ <;> rfl

/-- **The stored claim mirrors the contract's, with two exceptions.** After the indexer has
handled the history of an epoch, with others at work who leave the claim of the epoch alone,
`get_claim` returns the claim whose hash the outbox holds if and only if the epoch had no task
when `Claimed` was handled and a wrong claim has not been verified without a challenger. -/
theorem mirrors_iff (route : Route) (snap : ℕ → Word) (H : History blockTs e)
    (hrely : ∀ s t, rely s t → t.entries e = s.entries e ∧ (s.entries e = [] →
      ((∃ task ∈ t.schedule.tasks, task.epoch = e) ↔ ∃ task ∈ s.schedule.tasks, task.epoch = e)))
    (hs : s.entries e = [])
    (hrun : (Indexer.deliver route H.logs).Runs rely (Answers blockTs snap) s (.ok ()) t) :
    (ClaimStore.getClaim e).burst t = (t, pure (H.claim (snap e))) ↔
      (¬∃ task ∈ s.schedule.tasks, task.epoch = e) ∧
      ¬(H.last ≠ none ∧ (H.claim (snap e)).challenger = 0 ∧ H.root ≠ snap e) := by
  have hentries : ∀ s t, rely s t → t.entries e = s.entries e := fun s t h => (hrely s t h).1
  rw [← H.kept_eq_claim_iff]
  generalize hbusy : (∃ task ∈ s.schedule.tasks, task.epoch = e) = busy
  have hkeep : ∀ s t, rely s t → s.entries e = [] →
      ((∃ task ∈ s.schedule.tasks, task.epoch = e) ↔ busy) →
      ((∃ task ∈ t.schedule.tasks, task.epoch = e) ↔ busy) :=
    fun s t h hnone hb => ((hrely s t h).2 hnone).trans hb
  have hw : (Indexer.deliver route H.logs).wp (among blockTs snap rely) () (fun _ t =>
      (¬busy ∧ Holds e (H.kept (snap e)) t) ∨ (busy ∧ t.entries e = [])) s := by
    rw [History.logs, List.map_cons, Indexer.wp_deliver_cons, wp_sleep]
    refine ⟨trivial, trivial, fun t ht _ _ _ => ?_⟩
    refine Prog.wp_mono ?_ (wp_first H hentries hkeep ((hentries s t ht).trans hs)
      (hkeep s t ht hs (iff_of_eq hbusy)))
    rintro _ u (⟨hfree, hu⟩ | ⟨hb, hu⟩)
    · exact Prog.wp_mono (fun _ v hv => .inl ⟨hfree, hv⟩) (wp_later hentries H.later hu)
    · exact Prog.wp_mono (fun _ v hv => .inr ⟨hb, hv⟩) (wp_later_missing hentries H.later hu)
  rcases (Prog.wp_runs_disturbed hw hrun).1 () rfl with ⟨hfree, d, hd, hc⟩ | ⟨hb, hnone⟩
  · have hget : (ClaimStore.getClaim e).burst t = (t, pure (H.kept (snap e))) := by
      rw [burst_getClaim, hd, ← hc]
    rw [hget, Prod.mk.injEq, eq_self, true_and]
    exact ⟨fun h => ⟨hfree, Prog.ret.inj h⟩, fun h => by rw [h.2]⟩
  · have hget : (ClaimStore.getClaim e).burst t = (t, .panic (.noClaimFound e)) := by
      rw [burst_getClaim, hnone]
    rw [hget, Prod.mk.injEq, eq_self, true_and]
    exact ⟨nofun, fun h => absurd hb h.1⟩

/-! ### A claim that nobody challenges -/

/-- A log of the sample chain, in the block with this number. -/
def sampleMined (log : Log) (event : Event) (number : ℕ) (h : log.event? = some event)
    (hn : log.blockNumber = some number) (ht : log.blockTimestamp = some (10 * number)) :
    Mined (10 * ·) where
  log
  event
  number
  decodes := h
  block := hn
  time _ hts := Option.some.inj (hts.symm.trans ht)

/-- Epoch 5 is claimed with the root 2, and verified in the end. -/
def sampleHistory : History (10 * ·) 5 where
  first := sampleMined (Sample.claimed 5 2 3) (.claimed 5 9 2) 3 (by decide) rfl rfl
  claimer := 9
  root := 2
  claims := rfl
  middle := [sampleMined (Sample.verificationStarted 5 4) (.verificationStarted 5) 4
    (by decide) rfl rfl]
  disputes m hm := .inl (by rw [List.mem_singleton.mp hm]; rfl)
  last := some (sampleMined (Sample.verified 5 6) (.verified 5) 6 (by decide) rfl rfl)
  verifies m hm := by rw [Option.mem_some_iff.mp hm.symm]; rfl

/-- Nodes of a chain on which this is the root of every epoch. -/
def sampleNode (root : Word) : (q : Query) → q.Answer
  | .snapshots _ => .ok root
  | q => Sample.node 100 0 q

lemma answers_sampleNode (root : Word) (q : Query) (w : World) :
    Answers (10 * ·) (fun _ => root) q (sampleNode root q) w := by
  cases q with
  | blockByNumber p n => cases p <;> cases n <;> trivial
  | _ => trivial

def afterHistory (root : Word) : Except Panic Unit × World :=
  (Indexer.deliver Sample.route sampleHistory.logs).eval (sampleNode root) {}

lemma runs_afterHistory {root : Word} (h : (afterHistory root).1 = .ok ()) :
    (Indexer.deliver Sample.route sampleHistory.logs).Runs Eq (Answers (10 * ·) fun _ => root) {}
      (.ok ()) (afterHistory root).2 := by
  rw [← h]
  exact Prog.runs_eval (fun _ => rfl) (answers_sampleNode root) _ _

/-- With the right root the two agree. -/
theorem mirrors_iff_sample : (ClaimStore.getClaim 5).burst (afterHistory 2).2 =
    ((afterHistory 2).2, pure (sampleHistory.claim 2)) :=
  (mirrors_iff Sample.route (fun _ => 2) sampleHistory
    (fun s t (h : s = t) => h ▸ ⟨rfl, fun _ => Iff.rfl⟩) rfl (runs_afterHistory (by decide +kernel))).mpr
      ⟨nofun, fun h => h.2.2 rfl⟩

/-- What the indexer has stored by then, where the root of the epoch is 1. -/
def sampleStored : ClaimData := ClaimData.settle "Challenger"
  (ClaimData.startVerification 40 4 (ClaimData.fresh 5 2 9 30))

/-- With a wrong one they do not: the contract pays the claimer, the store says the
challenger. -/
theorem wrong_party : ∃ (H : History (10 * ·) 5) (s t : World), s.schedule.tasks = [] ∧
    s.claims = [] ∧
    (Indexer.deliver Sample.route H.logs).Runs Eq (Answers (10 * ·) fun _ => 1) s (.ok ()) t ∧
    (H.claim 1).honest = .claimer ∧
    ∃ c, (ClaimStore.getClaim 5).burst t = (t, pure c) ∧ c.honest = .challenger ∧
      c ≠ H.claim 1 := by
  have hd : (afterHistory 1).2.entries 5 = [sampleStored] := by decide +kernel
  refine ⟨sampleHistory, {}, (afterHistory 1).2, rfl, rfl, runs_afterHistory (by decide +kernel),
    by decide, sampleStored.toClaim, ?_, by decide, by decide⟩
  rw [burst_getClaim, hd]

end Mirror

end VeaValidator
