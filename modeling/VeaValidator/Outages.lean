import VeaValidator.EpochWatcher
import VeaValidator.Failures

/-!
The watcher while the nodes are out of reach.

A claim whose call times out, or does not get a connection, is made again in a later turn. Only the
block search of the finality check gives up, when it has tried a block three times, and with it the
route.
-/

namespace VeaValidator

open Coop

namespace Outages

open EpochWatcher Failures

/-- The text of an error of the transport. -/
def Transport (e : String) : Prop := contains e "timed out" ∨ contains e "connection"

/-- A call of `save_snapshot::execute`. -/
def OfSnapshot : Query → Prop
  | .count | .send .saveSnapshot => True
  | _ => False

/-- The node knows no block where the code takes one for granted. -/
def Missing : (q : Query) → q.Answer → Prop
  | .blockByNumber _ .finalized, _ => False
  | .blockByNumber _ _, .ok none => True
  | _, _ => False

/-- The nodes fail by the transport at most. -/
def Outage (q : Query) (a : q.Answer) : Prop := ∀ e, a = .error e → Transport e

/-- An answer of an outage that has no snapshot in it. -/
structure Mild (q : Query) (a : q.Answer) : Prop where
  outage : Outage q a
  block : ¬Missing q a
  snapshot : OfSnapshot q → ∀ e, a ≠ .error e

/-- The errors of a claim after which the watcher goes on. -/
def Tolerated (e : String) : Prop := e = "EpochNotFinalized" ∨ Transport e

variable {α β : Type} {R : α → Prop} {R' : β → Prop}

/-- In an outage the program returns what `R` says, unless it fails to fetch a block. -/
abbrev Survives (R : α → Prop) (p : M α) : Prop := Prog.Ends Mild Exhausted R p

abbrev Tolerates (R : α → Prop) (p : Fallible α) : Prop :=
  Survives (Prog.Returns R Tolerated) p.run

lemma exhausted_append : ∀ (l₀ l : List ((q : Query) × q.Answer)) p, Exhausted l p →
    Exhausted (l₀ ++ l) p := fun l₀ _ _ h => h.append l₀

lemma Survives.bind {p : M α} {g : α → M β} (hp : Survives R p)
    (hg : ∀ a, R a → Survives R' (g a)) : Survives R' (p >>= g) :=
  Prog.Ends.bind exhausted_append hp hg

namespace Tolerates

lemma bind {x : Fallible α} {g : α → Fallible β} (hx : Tolerates R x)
    (hg : ∀ a, R a → Tolerates R' (g a)) : Tolerates R' (x >>= g) :=
  Prog.Ends.run_bind exhausted_append hx hg

lemma lift {p : M α} (hp : Survives R p) : Tolerates R (ExceptT.lift p) :=
  Prog.Ends.run_lift hp exhausted_append

lemma rpc_of {q : Query} {R : q.Result → Prop} (h : ∀ b, Mild q (.ok b) → R b) :
    Tolerates R (rpc q) := by
  show Survives (Prog.Returns R Tolerated) (Prog.ask (A := Query.Answer) q)
  refine Prog.Ends.ask fun a ha => ?_
  cases a with
  | ok b => exact h b ha
  | error e => exact .inr (ha.outage e rfl)

lemma rpc (q : Query) : Tolerates (fun _ => True) (rpc q) := rpc_of fun _ _ => trivial

end Tolerates

lemma survives_sleep (n : ℕ) : Survives (fun _ => True) (sleep n) :=
  Survives.bind (Prog.Ends.ask fun _ _ => trivial) fun _ _ => Prog.Ends.pure trivial

/-! ### The finality check -/

lemma survives_getBlockWithRetry (provider : Provider) {block : BlockNumberOrTag}
    (hblock : block ≠ .finalized) :
    Survives (fun _ => True) (getBlockWithRetry provider block) := by
  have hmissing : ¬Mild (.blockByNumber provider block) (.ok none) := by
    intro h
    cases block with
    | finalized => exact hblock rfl
    | latest => exact h.block trivial
    | number n => exact h.block trivial
  rintro rely s l r t ⟨u₁, -, a₁, l₁, rfl, h⟩ hgood
  refine ⟨fun _ _ => trivial, ?_⟩
  rintro p rfl
  rcases a₁ with e₁ | _ | b
  · obtain ⟨u₂, -, w₁, l₂, rfl, u₃, -, a₂, l₃, rfl, h⟩ := h
    rcases a₂ with e₂ | _ | b
    · obtain ⟨u₄, -, w₂, l₄, rfl, u₅, -, a₃, l₅, rfl, h⟩ := h
      rcases a₃ with e₃ | _ | b
      · obtain ⟨rfl, hp, -⟩ := h
        cases hp
        exact ⟨[], provider, block, e₁, e₂, e₃, w₁, w₂, rfl, rfl⟩
      · exact absurd (hgood ⟨.blockByNumber provider block, .ok none⟩ (by simp)) hmissing
      · cases h.2.1
    · exact absurd (hgood ⟨.blockByNumber provider block, .ok none⟩ (by simp)) hmissing
    · cases h.2.1
  · exact absurd (hgood ⟨.blockByNumber provider block, .ok none⟩ (by simp)) hmissing
  · cases h.2.1

lemma survives_bisect (provider : Provider) (targetTs fuel lo hi : ℕ) :
    Survives (fun _ => True) (bisect provider targetTs fuel lo hi) := by
  induction fuel generalizing lo hi with
  | zero => exact Prog.Ends.pure trivial
  | succ fuel ih =>
    rw [bisect]
    refine Prog.Ends.ite (fun _ => ?_) fun _ => Prog.Ends.pure trivial
    refine Survives.bind (survives_getBlockWithRetry provider (fun h => by cases h)) fun block _ => ?_
    exact Prog.Ends.ite (fun _ => ih _ _) fun _ => ih _ _

lemma survives_findBlockByTimestamp (provider : Provider) (targetTs : ℕ) :
    Survives (fun _ => True) (findBlockByTimestamp provider targetTs) := by
  refine Survives.bind (survives_getBlockWithRetry provider (fun h => by cases h)) fun latest _ => ?_
  exact Prog.Ends.ite (fun _ => Prog.Ends.pure trivial) fun _ => survives_bisect _ _ _ _ _

lemma tolerates_searchBatch (sequencerInbox : Address) (batch latest iterations fromBlock : ℕ) :
    Tolerates (fun _ => True) (searchBatch sequencerInbox batch latest iterations fromBlock) := by
  induction iterations generalizing fromBlock with
  | zero => exact Prog.Ends.run_pure trivial
  | succ n ih =>
    rw [searchBatch]
    split
    · refine Tolerates.bind (Tolerates.rpc _) fun logs _ => ?_
      cases logs with
      | nil => exact ih _
      | cons log _ => exact Prog.Ends.run_pure trivial
    · exact Prog.Ends.run_pure trivial

lemma tolerates_getL1BlockForBatch (sequencerInbox : Address) (batch epochEndTs : ℕ) :
    Tolerates (fun _ => True) (getL1BlockForBatch sequencerInbox batch epochEndTs) := by
  refine Tolerates.bind (Tolerates.rpc _) fun latest _ => ?_
  refine Tolerates.bind (Tolerates.lift (survives_findBlockByTimestamp _ _)) fun startBlock _ => ?_
  exact tolerates_searchBatch _ _ _ _ _

lemma tolerates_isEpochFinalized (epoch epochPeriod : ℕ) (sequencerInbox : Option Address) :
    Tolerates (fun _ => True) (isEpochFinalized epoch epochPeriod sequencerInbox) := by
  cases sequencerInbox with
  | none => exact Prog.Ends.run_pure trivial
  | some sequencerInbox =>
    refine Tolerates.bind (Tolerates.lift (survives_findBlockByTimestamp _ _)) fun l2Block _ => ?_
    refine Tolerates.bind (Tolerates.rpc (.findBatchContainingBlock l2Block)) fun batch _ => ?_
    refine Tolerates.bind (tolerates_getL1BlockForBatch _ _ _) fun l1Block _ => ?_
    cases l1Block with
    | none => exact Prog.Ends.run_pure trivial
    | some l1Block =>
      refine Tolerates.bind (Tolerates.rpc _) fun finalized _ => ?_
      cases finalized with
      | none => exact Prog.Ends.run_pure trivial
      | some block => exact Prog.Ends.run_pure trivial

/-! ### The two tasks of the watcher -/

/-- A snapshot whose calls succeed is saved, or need not be. -/
lemma survives_saveSnapshot :
    Survives (Prog.Returns (fun _ => True) fun _ => False) Tasks.saveSnapshot.run := by
  have hrpc : ∀ q, OfSnapshot q →
      Survives (Prog.Returns (fun _ => True) fun _ => False) (rpc q).run := by
    intro q hq
    refine Prog.Ends.ask fun a ha => ?_
    cases a with
    | ok a => trivial
    | error e => exact ha.snapshot hq e rfl
  refine Prog.Ends.run_bind exhausted_append (hrpc .count trivial) fun currentCount _ => ?_
  refine Prog.Ends.run_ite (fun _ => Prog.Ends.run_pure trivial) fun _ => ?_
  have hcount : Survives (Prog.Returns (fun _ => True) fun _ => False)
      (ExceptT.lift TaskStore.getLastSavedCount : Fallible (Option ℕ)).run :=
    Prog.Ends.run_lift (Prog.Ends.gets fun _ => trivial) exhausted_append
  refine Prog.Ends.run_bind exhausted_append hcount fun lastSavedCount _ => ?_
  exact Prog.Ends.run_ite (fun _ => Prog.Ends.run_pure trivial) fun _ => hrpc (.send .saveSnapshot) trivial

lemma tolerates_claimValue (route : Route) :
    Tolerates (fun _ => True) (Tasks.claimValue route) := by
  unfold Tasks.claimValue
  cases route.wethAddress with
  | some _ => exact Prog.Ends.run_pure trivial
  | none => exact Tolerates.bind (Tolerates.rpc _) fun _ _ => Prog.Ends.run_pure trivial

/-- What a claim sends may fail, and so may the look at whether it was needed. -/
lemma tolerates_sendClaim (tx : Tx) (epoch : ℕ) :
    Tolerates (fun _ => True) (do
      match ← ExceptT.lift (Tasks.sendTx tx).run with
      | .ok _ => pure ()
      | .error e => do
        let claimHash ← rpc (.claimHashes epoch)
        if claimHash ≠ 0 then pure () else throw e) := by
  refine Tolerates.bind (Tolerates.lift (Tolerates.rpc (.send tx))) fun result hresult => ?_
  cases result with
  | ok _ => exact Prog.Ends.run_pure trivial
  | error e =>
    refine Tolerates.bind (Tolerates.rpc _) fun claimHash _ => ?_
    split
    · exact Prog.Ends.run_pure trivial
    · exact Prog.Ends.run_throw hresult

lemma tolerates_claim (route : Route) (epoch currentTimestamp : ℕ) :
    Tolerates (fun _ => True) (Tasks.claim route epoch currentTimestamp) := by
  refine Tolerates.bind (Tolerates.rpc _) fun epochPeriod _ => ?_
  refine Tolerates.bind (tolerates_isEpochFinalized _ _ _) fun finalized _ => ?_
  refine Prog.Ends.run_ite (fun _ => Prog.Ends.run_throw (.inl rfl)) fun _ => ?_
  refine Tolerates.bind (Tolerates.rpc _) fun stateRoot _ => ?_
  refine Prog.Ends.run_ite (fun _ => Prog.Ends.run_pure trivial) fun _ => ?_
  refine Tolerates.bind (Tolerates.rpc _) fun claimHash _ => ?_
  refine Prog.Ends.run_ite (fun _ => Prog.Ends.run_pure trivial) fun _ => ?_
  refine Tolerates.bind (Tolerates.rpc _) fun currentStateRoot _ => ?_
  refine Prog.Ends.run_ite (fun _ => Prog.Ends.run_pure trivial) fun _ => ?_
  have hrecent : Survives (fun _ => True) (ClaimStore.hasStateRootInRecentClaims stateRoot
      (u32 currentTimestamp - Tasks.sevenDaysSecs)) :=
    Survives.bind (R := fun _ => True) (Prog.Ends.gets fun _ => trivial) fun _ _ => Prog.Ends.pure trivial
  refine Tolerates.bind (Tolerates.lift hrecent) fun recent _ => ?_
  refine Prog.Ends.run_ite (fun _ => Prog.Ends.run_pure trivial) fun _ => ?_
  exact Tolerates.bind (tolerates_claimValue route) fun value _ => tolerates_sendClaim _ _

/-! ### The loop -/

variable {route : Route} {makeClaims : Bool} {epochPeriod : ℕ}

lemma survives_getCurrentTimestamp :
    Survives (fun _ => True) getCurrentTimestamp.run := by
  have hread : Tolerates (fun b => b ≠ none) (rpc (.blockByNumber .inbox .latest)) := by
    refine Tolerates.rpc_of (q := .blockByNumber .inbox .latest) fun b hb => ?_
    rintro rfl
    exact hb.block trivial
  have htolerates : Tolerates (fun _ => True) getCurrentTimestamp := by
    refine Tolerates.bind hread fun b hb => ?_
    cases b with
    | none => exact absurd rfl hb
    | some b => exact Prog.Ends.run_pure trivial
  exact Prog.Ends.mono htolerates fun _ _ => trivial

lemma survives_saveBeforeEpoch (now : ℕ) (m : Memory) :
    Survives (fun _ => True) (saveBeforeEpoch epochPeriod now m) := by
  refine Survives.bind (R := fun _ => True) (Prog.Ends.gets fun _ => trivial) fun onSync _ => ?_
  refine Prog.Ends.ite (fun _ => ?_) fun _ => Prog.Ends.pure trivial
  refine Survives.bind (R := fun _ => True) (Prog.Ends.modify trivial) fun _ _ => ?_
  refine Survives.bind survives_saveSnapshot fun result hresult => ?_
  cases result with
  | ok _ => exact Prog.Ends.pure trivial
  | error e => exact hresult.elim

/-- The watcher goes on after every error that a claim can return in an outage. -/
lemma survives_afterClaim (prevEpoch now : ℕ) (m : Memory) {result : Except String Unit}
    (h : Prog.Returns (fun _ => True) Tolerated result) :
    Survives (fun _ => True) (afterClaim prevEpoch now m result) := by
  cases result with
  | ok _ => exact Prog.Ends.pure trivial
  | error e =>
    refine Prog.Ends.ite (fun _ => Prog.Ends.pure trivial) fun hne => ?_
    refine Prog.Ends.ite (fun _ => Prog.Ends.pure trivial) fun hnot => ?_
    exact absurd (h.resolve_left hne) hnot

lemma survives_claimAfterEpoch (now : ℕ) (m : Memory) :
    Survives (fun _ => True) (claimAfterEpoch route makeClaims epochPeriod now m) := by
  refine Survives.bind (R := fun _ => True) (Prog.Ends.gets fun _ => trivial) fun onSync _ => ?_
  refine Prog.Ends.ite (fun _ => ?_) fun _ => Prog.Ends.pure trivial
  refine Prog.Ends.ite (fun _ => ?_) fun _ => Prog.Ends.pure trivial
  refine Prog.Ends.ite (fun _ => ?_) fun _ => Prog.Ends.pure trivial
  refine Survives.bind (R := fun _ => True) (Prog.Ends.modify trivial) fun _ _ => ?_
  refine Survives.bind (tolerates_claim _ _ _) fun result hresult => ?_
  refine Survives.bind (R := fun _ => True) (Prog.Ends.modify trivial) fun _ _ => ?_
  exact survives_afterClaim _ _ _ hresult

lemma survives_watchTurn (hpos : 0 < epochPeriod) (m : Memory) :
    Survives (fun _ => True) (watchTurn route makeClaims epochPeriod m) := by
  have hsleep : ∀ m' : Memory, Survives (fun _ => True) (do
      sleep 10
      pure m') :=
    fun m' => Survives.bind (survives_sleep 10) fun _ _ => Prog.Ends.pure trivial
  refine Survives.bind survives_getCurrentTimestamp fun time _ => ?_
  cases time with
  | error e => exact hsleep m
  | ok now =>
    refine Prog.Ends.ite (fun hzero => absurd hzero hpos.ne') fun _ => ?_
    refine Survives.bind (R := fun _ => True) (Prog.Ends.modify trivial) fun _ _ => ?_
    refine Survives.bind (survives_saveBeforeEpoch now m) fun m₁ _ => ?_
    exact Survives.bind (survives_claimAfterEpoch now m₁) fun m₂ _ => hsleep m₂

lemma survives_watchEpochs (hpos : 0 < epochPeriod) (n : ℕ) (m : Memory) :
    Survives (fun _ => True) (watchEpochs route makeClaims epochPeriod n m) := by
  induction n generalizing m with
  | zero => exact Prog.Ends.pure trivial
  | succ n ih => exact Survives.bind (survives_watchTurn hpos m) fun m' _ => ih m'

/-- **The watcher outlives an outage.** Whatever the others do, and however long the nodes fail by the
transport: unless a call of a snapshot fails, nothing but a block of the finality check that has not
been fetched in three attempts ends the loop. -/
theorem watchEpochs_survives (route : Route) (makeClaims : Bool) {epochPeriod : ℕ}
    (hpos : 0 < epochPeriod) (n : ℕ) {rely : World → World → Prop} {s t : World}
    {l : List ((q : Query) × q.Answer)} {r : Except Panic Unit}
    (h : (watchEpochs route makeClaims epochPeriod n {}).Talks rely s l r t)
    (hmild : ∀ x ∈ l, Mild x.1 x.2) : ∀ p, r = .error p → Exhausted l p :=
  (survives_watchEpochs hpos n {} rely s l r t h hmild).2

/-! ### Outages that stop the route -/

/-- Nodes that do no more than tell the time and save snapshots. -/
def outage (now : ℕ) : (q : Query) → q.Answer
  | .sleep _ => .ok ()
  | .blockByNumber .inbox .latest => .ok (some ⟨now / 10, now⟩)
  | .epochPeriod => .ok 3600
  | .count => .ok 0
  | .send .saveSnapshot => .ok ()
  | _ => .error "timed out"

/-- The nodes of the outage with another answer to one question. -/
def outageBut (q : Query) (a : q.Answer) (now : ℕ) (q' : Query) : q'.Answer :=
  if h : q' = q then h ▸ a else outage now q'

/-- The route whose epochs are final when their batch is. -/
def rollup : Route := { Sample.route with sequencerInbox := some 4 }

lemma transport_timedOut : Transport "timed out" := .inl (by decide)

lemma mild_outage (now : ℕ) (q : Query) : Mild q (outage now q) := by
  have hblock : ∀ provider block, Mild (.blockByNumber provider block)
      (outage now (.blockByNumber provider block)) := by
    rintro (_ | _ | _) (_ | _ | _) <;>
      exact ⟨by rintro e ⟨⟩ <;> exact transport_timedOut, nofun, nofun⟩
  have hsend : ∀ tx, Mild (.send tx) (outage now (.send tx)) := by
    intro tx
    cases tx <;> exact ⟨by rintro e ⟨⟩ <;> exact transport_timedOut, nofun, nofun⟩
  cases q with
  | blockByNumber provider block => exact hblock provider block
  | send tx => exact hsend tx
  | _ => exact ⟨by rintro e ⟨⟩ <;> exact transport_timedOut, nofun, nofun⟩

lemma outage_outageBut {q : Query} {a : q.Answer} (ha : Outage q a) (now : ℕ) (q' : Query) :
    Outage q' (outageBut q a now q') := by
  unfold outageBut
  split
  · next h =>
    subst h
    exact ha
  · exact (mild_outage now q').outage

/-- The run with the answers of an outage has no others. -/
lemma outage_run {p : M Unit} {s : World} {e : Panic} (o : (q : Query) → q.Answer)
    (ho : ∀ q, Outage q (o q)) (h : (p.eval o s).1 = .error e) :
    ∃ l t, p.Talks Eq s l (.error e) t ∧ ∀ x ∈ l, Outage x.1 x.2 := by
  have htalk : p.Talks Eq s (p.exchanges o s) (p.eval o s).1 (p.eval o s).2 :=
    Prog.talks_exchanges (fun _ => rfl) o p s
  rw [h] at htalk
  refine ⟨_, _, htalk, fun x hx => ?_⟩
  rw [Prog.of_mem_exchanges hx]
  exact ho x.1

/-- Epoch 3 is to be claimed, and no block of its end can be fetched. -/
def searching : M Unit := watchEpochs rollup true 3600 2 {}

lemma talks_searching : searching.Talks Eq onSync (searching.exchanges (outage 15600) onSync)
    (.error (.failedToGetBlock (.number 780) "timed out"))
    (searching.eval (outage 15600) onSync).2 := by
  have htalk : searching.Talks Eq onSync (searching.exchanges (outage 15600) onSync)
      (searching.eval (outage 15600) onSync).1 (searching.eval (outage 15600) onSync).2 :=
    Prog.talks_exchanges (fun _ => rfl) (outage 15600) searching onSync
  have hend : (searching.eval (outage 15600) onSync).1 =
      .error (.failedToGetBlock (.number 780) "timed out") := by
    decide +kernel
  rwa [hend] at htalk

theorem watchEpochs_survives_sample :
    Exhausted (searching.exchanges (outage 15600) onSync)
      (.failedToGetBlock (.number 780) "timed out") := by
  refine watchEpochs_survives rollup true (by decide) 2 talks_searching (fun x hx => ?_) _ rfl
  rw [Prog.of_mem_exchanges hx]
  exact mild_outage 15600 x.1

/-- One call of a snapshot that times out stops the route; so do three in the search of a claim, a
head without a block, and an epoch of no length. -/
theorem watchEpochs_panics :
    (∃ l t, (watchEpochs Sample.route false 3600 1 {}).Talks Eq onSync l
      (.error (.failedToSave 0 "timed out")) t ∧ ∀ x ∈ l, Outage x.1 x.2) ∧
    (∃ l t, (watchEpochs rollup true 3600 1 {}).Talks Eq onSync l
      (.error (.failedToGetBlock (.number 780) "timed out")) t ∧ ∀ x ∈ l, Outage x.1 x.2) ∧
    (∃ l t, (watchEpochs Sample.route false 3600 1 {}).Talks Eq onSync l
      (.error .unwrapNone) t ∧ ∀ x ∈ l, Outage x.1 x.2) ∧
    ∃ l t, (watchEpochs Sample.route false 0 1 {}).Talks Eq onSync l
      (.error .divideByZero) t ∧ ∀ x ∈ l, Outage x.1 x.2 := by
  refine ⟨?_, ?_, ?_, ?_⟩
  · refine outage_run (outageBut .count (.error "timed out") 3590) ?_ (by decide +kernel)
    refine outage_outageBut ?_ 3590
    rintro e ⟨⟩
    exact transport_timedOut
  · exact outage_run (outage 15600) (fun q => (mild_outage 15600 q).outage) (by decide +kernel)
  · refine outage_run (outageBut (.blockByNumber .inbox .latest) (.ok none) 3590) ?_
      (by decide +kernel)
    exact outage_outageBut (fun e he => by cases he) 3590
  · exact outage_run (outage 3590) (fun q => (mild_outage 3590 q).outage) (by decide +kernel)

end Outages

end VeaValidator
