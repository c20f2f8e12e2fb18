import VeaValidator.Coop.Learn
import VeaValidator.Gate
import VeaValidator.Searches

/-!
What the transactions of a route rest on.

A body asks the nodes before it sends. What it has heard by then, and what the stores say when it
sends, is the evidence for its transaction; there is some for each of the nine transactions. And what
it has heard when it returns without an error shows that its work is done, or that there is none.
-/

namespace VeaValidator

open Coop

namespace Audit

open Searches (pageFilter)

/-- The answers a program has got. -/
abbrev Answers : Type := (q : Query) → q.Answer → Prop

/-- The nodes have shown that the search for the time `target` ends at `r`. -/
def Found (H : Answers) (provider : Provider) (target r : ℕ) : Prop :=
  ∃ head, H (.blockByNumber provider .latest) (.ok (some head)) ∧
    (head.timestamp ≤ target ∧ r = head.number ∨
      target < head.timestamp ∧ r ≤ head.number ∧
        (r = head.number ∨ ∃ b, H (.blockByNumber provider (.number r)) (.ok (some b)) ∧
          target ≤ b.timestamp) ∧
        (r = 0 ∨ ∃ b, H (.blockByNumber provider (.number (r - 1))) (.ok (some b)) ∧
          b.timestamp < target))

/-- The batch with the last block of the epoch was delivered in a finalized block. -/
def Final (H : Answers) (sequencerInbox : Address) (epoch epochPeriod : ℕ) : Prop :=
  ∃ l2Block batch fromBlock toBlock log logs n block,
    Found H .inbox (u64 (u64 (epoch + 1) * epochPeriod)) l2Block ∧
    H (.findBatchContainingBlock l2Block) (.ok batch) ∧
    H (.logs .ethereum (pageFilter sequencerInbox batch fromBlock toBlock)) (.ok (log :: logs)) ∧
    log.blockNumber = some n ∧
    H (.blockByNumber .ethereum .finalized) (.ok (some block)) ∧ n ≤ block.number

/-- The same for a route, which may have been set up without a sequencer inbox. -/
def Finalized (route : Route) (H : Answers) (epoch : ℕ) : Prop :=
  ∃ epochPeriod, H .epochPeriod (.ok epochPeriod) ∧
    ∀ sequencerInbox, route.sequencerInbox = some sequencerInbox →
      Final H sequencerInbox epoch epochPeriod

/-- The value of a claim: the deposit, where it is not paid in WETH. -/
def ClaimValue (route : Route) (H : Answers) (value : Option ℕ) : Prop :=
  match route.wethAddress with
  | some _ => value = none
  | none => ∃ deposit, H .deposit (.ok deposit) ∧ value = some deposit

/-- The wallet has the amount, in the token of the deposit. -/
def Balance (route : Route) (H : Answers) (balance : ℕ) : Prop :=
  match route.wethAddress with
  | some _ => H (.wethBalance route.walletAddress) (.ok balance)
  | none => H (.ethBalance route.walletAddress) (.ok balance)

/-- What a transaction rests on, when it is sent in the store `w`. -/
def Backed (route : Route) (H : Answers) : Tx → World → Prop
  | .saveSnapshot, w => ∃ n, H .count (.ok n) ∧ w.schedule.lastSavedCount.getD 0 < n
  | .claim e root value, _ => Finalized route H e ∧ H (.snapshots e) (.ok root) ∧ root ≠ 0 ∧
      H (.claimHashes e) (.ok 0) ∧ (∃ r, H .stateRoot (.ok r) ∧ r ≠ root) ∧
      ClaimValue route H value
  | .challenge e _ value, _ => Finalized route H e ∧ ∃ deposit balance,
      H .deposit (.ok deposit) ∧ Balance route H balance ∧ deposit ≤ balance ∧
      value = Tasks.challengeValue route deposit
  | .sendSnapshot e _ c, w => ∃ d, w.claim? e = some d ∧ c = d.toClaim
  | .startVerification e c, w => ∃ d, w.claim? e = some d ∧ d.challenger = 0 ∧ c = d.toClaim
  | .verifySnapshot e c, w => ∃ d, w.claim? e = some d ∧ d.challenger = 0 ∧ c = d.toClaim
  | .executeTransaction proof relay, _ => H (.isSpent relay.position) (.ok false) ∧
      ∃ size root r, H .sendMerkleTreeState (.ok size) ∧ relay.position.toNat < 2 ^ 64 ∧
        H (.constructOutboxProof size relay.position.toNat) (.ok (proof, root)) ∧
        H (.roots root) (.ok r) ∧ r ≠ 0
  | .withdrawClaimDeposit e c, w => (∃ h, H (.claimHashes e) (.ok h) ∧ h ≠ 0) ∧
      ∃ d, w.claim? e = some d ∧ c = d.toClaim ∧ c.honest = .claimer
  | .withdrawChallengeDeposit e c, w => (∃ h, H (.claimHashes e) (.ok h) ∧ h ≠ 0) ∧
      ∃ d, w.claim? e = some d ∧ c = d.toClaim ∧ c.honest = .challenger

/-- The nodes have shown an event of the outbox about the epoch, from its last 500 blocks. -/
def Emitted (route : Route) (H : Answers) (sig : Word) (e : ℕ) : Prop :=
  ∃ head logs log t, H (.blockNumber .outbox) (.ok head) ∧
    H (.logs .outbox { address := route.outboxAddress
                       eventSignature := [sig]
                       fromBlock := head - 500
                       toBlock := head - 500 + 1000 }) (.ok logs) ∧
    log ∈ logs ∧ log.topics[1]? = some t ∧ t.toNat = e

/-- The transaction was sent, and it has succeeded. -/
def Sent (H : Answers) (tx : Tx) : Prop := H (.send tx) (.ok ())

/-- The work of a task that started at the time `now` is done, or there is none, when the store is `w`. -/
def Finished (route : Route) (H : Answers) (task : Task) (now : ℕ) (w : World) : Prop :=
  let e := task.epoch
  match task.kind with
  | .saveSnapshot => (∃ n, H .count (.ok n) ∧ n ≤ w.schedule.lastSavedCount.getD 0) ∨
      Sent H .saveSnapshot
  | .claim _ => ∃ root, H (.snapshots e) (.ok root) ∧ (root = 0 ∨ H .stateRoot (.ok root) ∨
      (∃ h, H (.claimHashes e) (.ok h) ∧ h ≠ 0) ∨
      (∃ c ∈ w.claims, c.stateRoot = root ∧ u32 now - Tasks.sevenDaysSecs ≤ c.timestampClaimed) ∨
      ∃ value, Sent H (.claim e root value))
  | .validateClaim => Finalized route H e ∧ (∃ root, H (.snapshots e) (.ok root)) ∧
      (w.Queued e .startVerification ∨ w.Queued e .challenge)
  | .challenge => (∃ c value, Sent H (.challenge e c value)) ∨ Emitted route H sigChallenged e
  | .sendSnapshot => ∃ gas c, Sent H (.sendSnapshot e gas c)
  | .startVerification => (∃ d, w.claim? e = some d ∧ d.challenger ≠ 0) ∨
      (∃ c, Sent H (.startVerification e c)) ∨ Emitted route H sigVerificationStarted e ∨
      Emitted route H sigChallenged e
  | .verifySnapshot => (∃ d, w.claim? e = some d ∧ d.challenger ≠ 0) ∨
      (∃ c, Sent H (.verifySnapshot e c)) ∨ Emitted route H sigVerified e ∨
      Emitted route H sigChallenged e
  | .executeRelay relay => H (.isSpent relay.position) (.ok true) ∨
      ∃ proof, Sent H (.executeTransaction proof relay)
  | .withdrawDeposit => w.claim? e = none ∧ (H (.claimHashes e) (.ok 0) ∨
      (∃ c, Sent H (.withdrawClaimDeposit e c)) ∨ ∃ c, Sent H (.withdrawChallengeDeposit e c))

/-- A query that sends what is backed. -/
def Sound (route : Route) (H : Answers) (q : Query) (w : World) : Prop :=
  ∀ tx, q = .send tx → Backed route H tx w

/-- A program that hears what is in `H` and sends what is backed by it. -/
abbrev hearing (route : Route) (H : Answers) : Protocol Unit World Panic Query.Answer :=
  .hearing H (Sound route H)

variable {route : Route} {H : Answers} {α β : Type} {K : α → Prop} {K' : β → Prop} {e : ℕ}

lemma patient : Patient (hearing route H) () fun _ => True where
  rely _ _ _ _ _ := trivial
  issue q s hq _ _ tx htx := by
    subst htx
    exact hq.elim
  fault _ _ _ _ _ := trivial

lemma reads (e : ℕ) : Reads (hearing route H) () (fun _ => True) e :=
  { patient with
    none := fun _ _ _ _ => trivial
    many := fun _ _ _ => trivial }

/-! ### What a program learns -/

abbrev Learns (route : Route) (H : Answers) (K : α → Prop) (p : M α) : Prop :=
  Prog.Learns H (Sound route H) K p

abbrev Tells (route : Route) (H : Answers) (K : α → Prop) (x : Fallible α) : Prop :=
  Prog.Tells H (Sound route H) K x

abbrev Leaves (route : Route) (H : Answers) (K : World → Prop) (x : Fallible Unit) : Prop :=
  Prog.Leaves H (Sound route H) (fun _ => K) x

/-- A search shows where it ends. -/
lemma learns_findBlockByTimestamp (provider : Provider) (target : ℕ) :
    Learns route H (Found H provider target) (findBlockByTimestamp provider target) := by
  intro s
  rw [findBlockByTimestamp, Prog.wp_bind]
  refine Prog.wp_mono ?_ (wp_getBlockWithRetry patient (fun _ _ _ _ ha => ha) trivial trivial)
  rintro head t ⟨hhead, -, -⟩
  rw [Prog.wp_ite]
  refine ⟨fun hge => ⟨head, hhead, .inl ⟨hge, rfl⟩⟩, fun hlt => ?_⟩
  refine Prog.wp_mono ?_ (wp_bisect (Q := fun lo hi => hi ≤ head.number ∧
    (hi = head.number ∨ ∃ b, H (.blockByNumber provider (.number hi)) (.ok (some b)) ∧
      target ≤ b.timestamp) ∧
    (lo = 0 ∨ ∃ b, H (.blockByNumber provider (.number (lo - 1))) (.ok (some b)) ∧
      b.timestamp < target)) patient ?_ (Nat.zero_le _) (Nat.sub_le _ _)
    ⟨le_rfl, .inl rfl, .inl rfl⟩ trivial trivial)
  · rintro r u ⟨⟨hr, hat, hbelow⟩, -, -⟩
    exact ⟨head, hhead, .inr ⟨by omega, hr, hat, hbelow⟩⟩
  · rintro lo hi b u hlh ⟨hhi, hat, hbelow⟩ - - ha
    refine ⟨fun hlt => ⟨hhi, hat, .inr ⟨b, ha, hlt⟩⟩, fun hge => ?_⟩
    exact ⟨by omega, .inr ⟨b, ha, by omega⟩, hbelow⟩

namespace Tells

lemma rpc {q : Query} (hq : q.Passive) :
    Tells route H (fun a => H q (.ok a)) (rpc q) := by
  intro s
  refine ⟨trivial, patient.issue q s hq trivial trivial, fun t _ _ a ha => ?_⟩
  cases a with
  | ok a => exact ha
  | error err => trivial

lemma wp_send {tx : Tx} {s : World} (h : Backed route H tx s)
    {R : Except String Unit → World → Prop} (hR : ∀ r t, H (.send tx) r → R r t) :
    (Tasks.sendTx tx).run.wp (hearing route H) () R s := by
  refine ⟨trivial, fun tx' htx => ?_, fun t _ _ r hr => hR r t hr⟩
  cases htx
  exact h

lemma send {tx : Tx} (h : ∀ s, Backed route H tx s) : Learns route H (H (.send tx))
    (Tasks.sendTx tx).run := fun s => wp_send (h s) fun _ _ hr => hr

lemma quiet {x : M α} (h : Quiet x) : Learns route H (fun _ => True) x := fun s =>
  Prog.wp_mono (fun _ _ _ => trivial) (patient.keeps h s trivial trivial)

lemma claimValue (route : Route) : Tells route H (ClaimValue route H) (Tasks.claimValue route) := by
  unfold Tasks.claimValue ClaimValue
  cases route.wethAddress with
  | some _ => exact .pure rfl
  | none => exact .bind (rpc trivial) fun deposit hdeposit => .pure ⟨deposit, hdeposit, rfl⟩

lemma balance (route : Route) : Tells route H (Balance route H) (Tasks.balance route) := by
  unfold Tasks.balance Balance
  cases route.wethAddress with
  | some _ => exact rpc trivial
  | none => exact rpc trivial

/-- A batch that is found was found on some page. -/
lemma searchBatch (sequencerInbox : Address) (batch latest iterations fromBlock : ℕ) :
    Tells route H (fun r => ∀ n, r = some n → ∃ fromBlock toBlock log logs,
      H (.logs .ethereum (pageFilter sequencerInbox batch fromBlock toBlock)) (.ok (log :: logs)) ∧
        log.blockNumber = some n)
      (searchBatch sequencerInbox batch latest iterations fromBlock) := by
  induction iterations generalizing fromBlock with
  | zero => exact .pure nofun
  | succ iterations ih =>
    refine .ite (fun _ => .bind (rpc trivial) fun logs hlogs => ?_) fun _ => .pure nofun
    cases logs with
    | nil => exact ih _
    | cons log logs => exact .pure fun n hn => ⟨_, _, log, logs, hlogs, hn⟩

/-- **What it takes to call an epoch final.** -/
lemma isEpochFinalized (epoch epochPeriod : ℕ) (sequencerInbox : Option Address) :
    Tells route H (fun finalized => finalized = true → ∀ inbox, sequencerInbox = some inbox →
      Final H inbox epoch epochPeriod) (isEpochFinalized epoch epochPeriod sequencerInbox) := by
  cases sequencerInbox with
  | none => exact .pure nofun
  | some sequencerInbox =>
    refine .bind (.lift (learns_findBlockByTimestamp _ _)) fun l2Block hl2 => ?_
    refine .bind (rpc trivial) fun batch hbatch => ?_
    refine .bind (K := fun r => ∀ n, r = some n → ∃ fromBlock toBlock log logs,
      H (.logs .ethereum (pageFilter sequencerInbox batch fromBlock toBlock)) (.ok (log :: logs)) ∧
        log.blockNumber = some n) ?_ fun l1Block hl1 => ?_
    · refine .bind (rpc trivial) fun latest _ => ?_
      exact .bind (.lift (learns_findBlockByTimestamp _ _)) fun startBlock _ => searchBatch _ _ _ _ _
    · cases l1Block with
      | none => exact .pure nofun
      | some n =>
        obtain ⟨fromBlock, toBlock, log, logs, hlogs, hn⟩ := hl1 n rfl
        refine .bind (rpc trivial) fun block hblock => ?_
        cases block with
        | none => exact .pure nofun
        | some block =>
          refine .pure fun hge inbox hinbox => ?_
          cases hinbox
          exact ⟨l2Block, batch, fromBlock, toBlock, log, logs, n, block, hl2, hbatch, hlogs, hn,
            hblock, of_decide_eq_true hge⟩

/-- An event that is found is in the logs of an answer. -/
lemma wasEventEmitted (sig : Word) (e : ℕ) : Tells route H
    (fun emitted => emitted = true → Emitted route H sig e)
    (ExceptT.lift (Tasks.wasEventEmitted .outbox route.outboxAddress sig e)) := by
  refine .lift (.bind (.ask fun s => patient.issue _ s trivial trivial trivial) fun answer hhead => ?_)
  cases answer with
  | error _ => exact .pure nofun
  | ok currentBlock =>
    refine .bind (.ask fun s => patient.issue _ s trivial trivial trivial) fun answer hlogs => ?_
    cases answer with
    | error _ => exact .pure nofun
    | ok logs =>
      have hfind : ∀ l : List Log, l ⊆ logs → Learns route H
          (fun emitted => emitted = true → Emitted route H sig e) (Tasks.anyWithEpoch e l) := by
        intro l
        induction l with
        | nil => exact fun _ => .pure nofun
        | cons log l ih =>
          intro hsub
          have hrest := ih (List.Subset.trans (List.subset_cons_self log l) hsub)
          rw [Tasks.anyWithEpoch]
          cases ht : log.topics[1]? with
          | none => exact hrest
          | some t =>
            refine .bind (K := fun n => n = t.toNat) (fun s => ?_) fun n hn => .ite (fun he => ?_)
              fun _ => hrest
            · rw [wp_toU64]
              exact ⟨fun _ => rfl, fun _ => ⟨trivial, trivial⟩⟩
            · exact .pure fun _ => ⟨currentBlock, logs, log, t, hhead, hlogs,
                hsub List.mem_cons_self, ht, hn.symm.trans he⟩
      exact hfind logs (List.Subset.refl logs)

end Tells

/-! ### The bodies -/

namespace Leaves

lemma saveSnapshot : Leaves route H (fun w => (∃ n, H .count (.ok n) ∧
    n ≤ w.schedule.lastSavedCount.getD 0) ∨ Sent H .saveSnapshot) Tasks.saveSnapshot := by
  refine .bind (Tells.rpc trivial) fun count hcount => ?_
  refine .ite (fun hzero => .pure fun _ => .inl ⟨count, hcount, ?_⟩) fun _ s => ?_
  · rw [hzero]
    exact Nat.zero_le _
  rw [Prog.wp_run_lift_bind]
  show Prog.wp _ () (ExceptT.run (if count ≤ s.schedule.lastSavedCount.getD 0 then _ else _)) _ s
  rw [Prog.wp_run_ite]
  refine ⟨fun hle => .inl ⟨count, hcount, hle⟩, fun hlt => ?_⟩
  have hbacked : Backed route H .saveSnapshot s := ⟨count, hcount, not_le.mp hlt⟩
  refine Tells.wp_send hbacked fun r _ hr => ?_
  cases r with
  | ok _ => exact .inr hr
  | error _ => trivial

lemma claim {now : ℕ} : Leaves route H (fun w => ∃ root, H (.snapshots e) (.ok root) ∧ (root = 0 ∨
    H .stateRoot (.ok root) ∨ (∃ h, H (.claimHashes e) (.ok h) ∧ h ≠ 0) ∨
    (∃ c ∈ w.claims, c.stateRoot = root ∧ u32 now - Tasks.sevenDaysSecs ≤ c.timestampClaimed) ∨
    ∃ value, Sent H (.claim e root value))) (Tasks.claim route e now) := by
  refine .bind (Tells.rpc trivial) fun epochPeriod hperiod => ?_
  refine .bind (Tells.isEpochFinalized _ _ _) fun finalized hfinal => ?_
  refine .ite (fun _ => .throw) fun hf => ?_
  have hfinalized : Finalized route H e := ⟨epochPeriod, hperiod, hfinal (by simpa using hf)⟩
  refine .bind (Tells.rpc trivial) fun root hroot => ?_
  refine .ite (fun hzero => .pure fun _ => ⟨root, hroot, .inl hzero⟩) fun hzero => ?_
  refine .bind (Tells.rpc trivial) fun claimHash hhash => ?_
  refine .ite (fun hne => .pure fun _ => ⟨root, hroot, .inr (.inr (.inl ⟨claimHash, hhash, hne⟩))⟩)
    fun hnone => ?_
  refine .bind (Tells.rpc trivial) fun current hcurrent => ?_
  refine .ite (fun heq => .pure fun _ => ⟨root, hroot, .inr (.inl (heq ▸ hcurrent))⟩) fun hne => ?_
  intro s
  rw [Prog.wp_run_lift_bind]
  show Prog.wp _ () (ExceptT.run (if s.claims.any fun c => c.stateRoot = root ∧
    c.timestampClaimed ≥ u32 now - Tasks.sevenDaysSecs then _ else _)) _ s
  rw [Prog.wp_run_ite]
  refine ⟨fun hrecent => ?_, fun _ => ?_⟩
  · obtain ⟨c, hc, hrecent⟩ := List.any_eq_true.mp hrecent
    exact ⟨root, hroot, .inr (.inr (.inr (.inl ⟨c, hc, of_decide_eq_true hrecent⟩)))⟩
  refine Prog.Leaves.bind (Tells.claimValue route) (fun value hvalue => ?_) s
  refine .bind (.lift (Tells.send fun s => ?_)) fun r hr => ?_
  · obtain rfl : claimHash = 0 := not_not.mp hnone
    exact ⟨hfinalized, hroot, hzero, hhash, ⟨current, hcurrent, hne⟩, hvalue⟩
  · cases r with
    | ok _ => exact .pure fun _ => ⟨root, hroot, .inr (.inr (.inr (.inr ⟨value, hr⟩)))⟩
    | error err =>
      refine .bind (Tells.rpc trivial) fun claimHash hhash => .ite (fun hne => ?_) fun _ => .throw
      exact .pure fun _ => ⟨root, hroot, .inr (.inr (.inl ⟨claimHash, hhash, hne⟩))⟩

lemma challenge : Leaves route H (fun _ => (∃ c value, Sent H (.challenge e c value)) ∨
    Emitted route H sigChallenged e) (Tasks.challenge route e) := by
  refine .bind (Tells.rpc trivial) fun epochPeriod hperiod => ?_
  refine .bind (Tells.isEpochFinalized _ _ _) fun finalized hfinal => ?_
  refine .ite (fun _ => .throw) fun hf => ?_
  have hfinalized : Finalized route H e := ⟨epochPeriod, hperiod, hfinal (by simpa using hf)⟩
  refine .bind (J := fun _ => True) (.lift fun s => ?_) fun c _ => ?_
  · exact (reads e).getClaim trivial trivial fun _ _ => trivial
  refine .bind (Tells.rpc trivial) fun deposit hdeposit => ?_
  refine .bind (Tells.balance route) fun balance hbalance => .ite (fun _ => .throw) fun hge => ?_
  refine .bind (.lift (Tells.send fun s => ?_)) fun r hr => ?_
  · exact ⟨hfinalized, deposit, balance, hdeposit, hbalance, not_lt.mp hge, rfl⟩
  · cases r with
    | ok _ => exact .pure fun _ => .inl ⟨c, _, hr⟩
    | error err =>
      refine .bind (Tells.wasEventEmitted _ _) fun challenged hchallenged => ?_
      refine .ite (fun ht => .pure fun _ => .inr (hchallenged ht)) fun _ => ?_
      refine .bind (Tells.wasEventEmitted _ _) fun started _ => ?_
      exact .ite (fun _ => .throw) fun _ => .throw

lemma validateClaim {now : ℕ} : Leaves route H (fun w => Finalized route H e ∧
    (∃ root, H (.snapshots e) (.ok root)) ∧
    (w.Queued e .startVerification ∨ w.Queued e .challenge)) (Tasks.validateClaim route e now) := by
  refine .bind (Tells.rpc trivial) fun epochPeriod hperiod => ?_
  refine .bind (Tells.isEpochFinalized _ _ _) fun finalized hfinal => ?_
  refine .ite (fun _ => .throw) fun hf => ?_
  have hfinalized : Finalized route H e := ⟨epochPeriod, hperiod, hfinal (by simpa using hf)⟩
  refine .bind (J := fun _ => True) (.lift fun s => ?_) fun d _ => ?_
  · exact (reads e).get trivial trivial fun _ _ => trivial
  refine .bind (Tells.rpc trivial) fun root hroot => .ite (fun _ s => ?_) fun _ s => ?_
  · refine ⟨trivial, trivial, hfinalized, ⟨root, hroot⟩, .inl ?_⟩
    rw [World.queued_addTask]
    exact .inr ⟨rfl, rfl⟩
  · refine ⟨trivial, trivial, hfinalized, ⟨root, hroot⟩, .inr ?_⟩
    rw [World.queued_addTask]
    exact .inr ⟨rfl, rfl⟩

lemma sendSnapshot : Leaves route H (fun _ => ∃ gas c, Sent H (.sendSnapshot e gas c))
    (Tasks.sendSnapshot route e) := by
  intro s
  unfold Tasks.sendSnapshot
  rw [Prog.wp_run_lift_bind]
  refine (reads e).getClaim trivial trivial fun d hd => ?_
  rw [Prog.wp_run_ite, Prog.wp_run_ite, Prog.wp_run_lift]
  have hsent : ∀ gas, (Tasks.sendTx (.sendSnapshot e gas d.toClaim)).run.wp (hearing route H) ()
      (fun r _ => Prog.Returns (fun _ => ∃ gas c, Sent H (.sendSnapshot e gas c))
        (fun _ => True) r) s := by
    intro gas
    have hbacked : Backed route H (.sendSnapshot e gas d.toClaim) s := ⟨d, hd, rfl⟩
    refine Tells.wp_send hbacked fun r _ hr => ?_
    cases r with
    | ok _ => exact ⟨gas, d.toClaim, hr⟩
    | error _ => trivial
  exact ⟨fun _ => hsent _, fun _ => ⟨fun _ => hsent _, fun _ => ⟨trivial, trivial⟩⟩⟩

lemma sendUnlessChallenged {tx : ℕ → Claim → Tx} {done : Word}
    (hbacked : ∀ s d, s.claim? e = some d → d.challenger = 0 → Backed route H (tx e d.toClaim) s) :
    Leaves route H (fun w => (∃ d, w.claim? e = some d ∧ d.challenger ≠ 0) ∨
      (∃ c, Sent H (tx e c)) ∨ Emitted route H done e ∨ Emitted route H sigChallenged e)
      (Tasks.sendUnlessChallenged route e tx done) := by
  intro s
  rw [Tasks.sendUnlessChallenged, Prog.wp_run_lift_bind]
  refine (reads e).get trivial trivial fun d hd => ?_
  rw [Prog.wp_run_ite]
  refine ⟨fun hne => .inl ⟨d, hd, hne⟩, fun hzero => ?_⟩
  rw [Prog.wp_run_lift_bind]
  refine (reads e).getClaim trivial trivial fun d' hd' => ?_
  obtain rfl : d = d' := Option.some.inj (hd.symm.trans hd')
  rw [Prog.wp_run_lift_bind]
  refine Tells.wp_send (hbacked s d hd (not_not.mp hzero)) fun r t hr => ?_
  cases r with
  | ok _ => exact .inr (.inl ⟨d.toClaim, hr⟩)
  | error err =>
    refine Prog.Leaves.bind (Tells.wasEventEmitted _ _) (fun emitted hemitted => ?_) t
    refine .ite (fun ht => .pure fun _ => .inr (.inr (.inl (hemitted ht)))) fun _ => ?_
    refine .bind (Tells.wasEventEmitted _ _) fun challenged hchallenged => ?_
    exact .ite (fun ht => .pure fun _ => .inr (.inr (.inr (hchallenged ht)))) fun _ => .throw

lemma executeRelay {relay : Relay} : Leaves route H (fun _ => H (.isSpent relay.position) (.ok true) ∨
    ∃ proof, Sent H (.executeTransaction proof relay)) (Tasks.executeRelay relay) := by
  refine .bind (Tells.rpc trivial) fun spent hspent => ?_
  refine .ite (fun ht => .pure fun _ => .inl (ht ▸ hspent)) fun hfree => ?_
  refine .bind (J := fun x => ∃ size, H .sendMerkleTreeState (.ok size) ∧
    relay.position.toNat < 2 ^ 64 ∧ H (.constructOutboxProof size relay.position.toNat) (.ok x)) ?_
    fun x hx => ?_
  · refine .bind (Tells.rpc trivial) fun size hsize => ?_
    refine .bind (K := fun n => n = relay.position.toNat ∧ n < 2 ^ 64) (.lift fun s => ?_)
      fun leaf hleaf => ?_
    · rw [wp_toU64]
      exact ⟨fun hlt => ⟨rfl, hlt⟩, fun _ => ⟨trivial, trivial⟩⟩
    · obtain ⟨rfl, hlt⟩ := hleaf
      exact .mono (Tells.rpc trivial) fun x hx => ⟨size, hsize, hlt, hx⟩
  · obtain ⟨proof, root⟩ := x
    obtain ⟨size, hsize, hlt, hproof⟩ := hx
    refine .bind (Tells.rpc trivial) fun r hr => .ite (fun _ => .throw) fun hne => ?_
    refine .bind (.lift (Tells.send fun s => ?_)) fun r hr => ?_
    · obtain rfl : spent = false := by simpa using hfree
      exact ⟨hspent, size, root, r, hsize, hlt, hproof, hr, hne⟩
    · cases r with
      | ok _ => exact .pure fun _ => .inr ⟨proof, hr⟩
      | error _ => exact .throw

/-- The deposit has been withdrawn. -/
def Withdrawn (H : Answers) (e : ℕ) : Prop := H (.claimHashes e) (.ok 0) ∨
  (∃ c, Sent H (.withdrawClaimDeposit e c)) ∨ ∃ c, Sent H (.withdrawChallengeDeposit e c)

lemma withdrawDeposit : Leaves route H (fun w => w.claim? e = none ∧ Withdrawn H e)
    (Tasks.withdrawDeposit e) := by
  have hremove : Withdrawn H e → Leaves route H (fun w => w.claim? e = none ∧ Withdrawn H e)
      (ExceptT.lift (ClaimStore.remove e)) := by
    intro hw s
    refine ⟨trivial, trivial, ?_, hw⟩
    rw [World.claim?_removeClaim, if_pos rfl]
  have hretry : ∀ err : String, Leaves route H (fun w => w.claim? e = none ∧ Withdrawn H e) (do
      let claimHash ← VeaValidator.rpc (.claimHashes e)
      if claimHash = 0 then
        ExceptT.lift (ClaimStore.remove e)
      else
        throw err : Fallible Unit) := fun err =>
    .bind (Tells.rpc trivial) fun h hh =>
      .ite (fun hzero => hremove (.inl (hzero ▸ hh))) fun _ => .throw
  refine .bind (Tells.rpc trivial) fun h hh => ?_
  refine .ite (fun hzero => hremove (.inl (hzero ▸ hh))) fun hne s => ?_
  rw [Prog.wp_run_lift_bind]
  refine (reads e).getClaim trivial trivial fun d hd => ?_
  rw [Prog.wp_run_lift_bind]
  unfold Tasks.withdrawTx
  cases hp : d.toClaim.honest with
  | none => exact ⟨trivial, trivial⟩
  | claimer =>
    have hbacked : Backed route H (.withdrawClaimDeposit e d.toClaim) s :=
      ⟨⟨h, hh, hne⟩, d, hd, rfl, hp⟩
    refine Prog.wp_run_lift_bind.mpr (Tells.wp_send hbacked ?_)
    rintro (err | _) t hr
    · exact hretry err t
    · exact hremove (.inr (.inl ⟨_, hr⟩)) t
  | challenger =>
    have hbacked : Backed route H (.withdrawChallengeDeposit e d.toClaim) s :=
      ⟨⟨h, hh, hne⟩, d, hd, rfl, hp⟩
    refine Prog.wp_run_lift_bind.mpr (Tells.wp_send hbacked ?_)
    rintro (err | _) t hr
    · exact hretry err t
    · exact hremove (.inr (.inr ⟨_, hr⟩)) t

/-- **Whatever a body sends is backed by what it has heard**, and when it returns without an error its
task is finished. -/
lemma body {task : Task} {now : ℕ} :
    Leaves route H (Finished route H task now) (Dispatcher.body route task now) := by
  unfold Dispatcher.body Finished
  cases task.kind with
  | saveSnapshot => exact saveSnapshot
  | claim root => exact claim
  | validateClaim => exact validateClaim
  | challenge => exact challenge
  | sendSnapshot => exact sendSnapshot
  | startVerification => exact sendUnlessChallenged fun s d hd hc => ⟨d, hd, hc, rfl⟩
  | verifySnapshot => exact sendUnlessChallenged fun s d hd hc => ⟨d, hd, hc, rfl⟩
  | executeRelay relay => exact executeRelay
  | withdrawDeposit => exact withdrawDeposit

end Leaves

end Audit

end VeaValidator
