import VeaValidator.Audit
import VeaValidator.Relays
import VeaValidator.Startup
import VeaValidator.Window

/-!
The validator that has started.

The routes of a start run with the settings that were measured then and with a sequencer's inbox. So a
relay waits for as long as the rollup takes to confirm its message, an initialisation goes back far
enough for everything that still waits, and an epoch is claimed or challenged only when it is final.
-/

namespace VeaValidator

open Coop

namespace Validator

open Startup (ValidatorConfig Started Loaded Measured BlockTime ConfirmPeriod settingsOf wrappingSub)

variable {cfg : ValidatorConfig} {heard : List ((q : Startup.Query) × q.Answer)}
  {routes : List Startup.Route} {route : Startup.Route} {H : Startup.Answers}
  {rely : Unit → Unit → Prop} {u : Unit}

/-! ### The routes of a start -/

lemma started (h : (Startup.start cfg).run.Talks rely () heard (.ok (.ok routes)) u) :
    Started cfg (Prog.In heard) routes :=
  Prog.Learns.talks (K := fun H => Prog.Returns (Started cfg H) fun _ => True)
    (fun _ => Startup.tells_start) h

/-- A route of a start has its settings from what the start has heard. -/
lemma measured_of_mem (h : Started cfg H routes) (hr : route ∈ routes) :
    Measured cfg H 1 route route.settings := by
  obtain ⟨built, -, hloaded⟩ := h.routes
  clear h
  induction hloaded with
  | nil => cases hr
  | cons hload _ ih =>
    rcases List.mem_cons.mp hr with rfl | hr
    · obtain ⟨settings, hmeasured, rfl⟩ := hload
      exact hmeasured
    · exact ih hr

/-! ### The measured time of a block -/

/-- The times of the blocks of Ethereum, up to the last one. -/
structure Clock where
  ts : ℕ → ℕ
  head : ℕ
  ts_mono : Monotone ts
  head_lt : head < 2 ^ 63
  ts_lt : ts head < 2 ^ 40

/-- What the node of Ethereum says of its blocks is so, and it knows none beyond the head. -/
def Clock.Tells (k : Clock) (H : Startup.Answers) : Prop :=
  ∀ n block, H (.blockByNumber 1 n) (.ok (some block)) → n ≤ k.head ∧ block.timestamp = k.ts n

/-- The time from block `latest - 10000` to block `latest`. -/
def Clock.span (k : Clock) (latest : ℕ) : ℕ := k.ts latest - k.ts (latest - 10000)

variable {k : Clock} {ms blocks : ℕ}

lemma Clock.span_lt {latest : ℕ} (h : latest ≤ k.head) : k.span latest < 2 ^ 40 := by
  have hbound : k.ts latest ≤ k.ts k.head := k.ts_mono h
  have hts : k.ts k.head < 2 ^ 40 := k.ts_lt
  unfold span
  omega

lemma wrappingSub_eq {a b : ℕ} (ha : a < 2 ^ 64) (hb : b ≤ a) : wrappingSub a b = a - b := by
  unfold wrappingSub u64
  rw [show a + (2 ^ 64 - b) = a - b + 2 ^ 64 by omega, Nat.add_mod_right]
  exact Nat.mod_eq_of_lt (by omega)

/-- A block number that wraps is beyond any height. -/
lemma le_of_wrappingSub {a b : ℕ} (hb : b < 2 ^ 63) (h : wrappingSub a b < 2 ^ 63)
    (ha : a < 2 ^ 63) : b ≤ a := by
  by_contra hlt
  have hwrap : wrappingSub a b = a + (2 ^ 64 - b) := by
    unfold wrappingSub u64
    exact Nat.mod_eq_of_lt (by omega)
  omega

/-- The mean is taken over the last ten thousand blocks of a chain that has as many. -/
lemma blockTime_eq (hclock : k.Tells H) (h : BlockTime H 1 ms) :
    ∃ latest, H (.blockNumber 1) (.ok latest) ∧ 10000 ≤ latest ∧ latest ≤ k.head ∧
      ms = k.span latest / 10 := by
  obtain ⟨latest, new, old, hlatest, hnew, hold, hms⟩ := h
  obtain ⟨hle, hnewts⟩ := hclock latest new hnew
  obtain ⟨hole, holdts⟩ := hclock _ old hold
  have hhead : k.head < 2 ^ 63 := k.head_lt
  have hmany : 10000 ≤ latest := le_of_wrappingSub (by omega) (by omega) (by omega)
  rw [wrappingSub_eq (by omega) hmany] at holdts
  have horder : k.ts (latest - 10000) ≤ k.ts latest := k.ts_mono (Nat.sub_le _ _)
  have hbound : k.ts latest ≤ k.ts k.head := k.ts_mono hle
  have hts : k.ts k.head < 2 ^ 40 := k.ts_lt
  refine ⟨latest, hlatest, hmany, hle, ?_⟩
  rw [hms, hnewts, holdts, wrappingSub_eq (by omega) horder]
  unfold Clock.span u64
  omega

/-! ### The settings of a route -/

lemma relayDelay_eq (time delay challenge epoch : ℕ) (hblocks : blocks ≤ 665556)
    (htime : time < 2 ^ 40) :
    (settingsOf (time / 10) blocks delay challenge epoch).relayDelaySecs =
        blocks * (time / 10) / 1000 + 600 ∧ blocks * (time / 10) < 2 ^ 60 := by
  have hmul : blocks * (time / 10) ≤ 2 ^ 20 * 2 ^ 37 := Nat.mul_le_mul (by omega) (by omega)
  refine ⟨?_, by omega⟩
  simp only [settingsOf, Startup.timingSafetyBufferSecs, u64]
  omega

/-- The ten minutes on top make up for what the two divisions drop, as long as the period is below
665557 blocks. -/
lemma relayDelay_covers (time : ℕ) (hblocks : blocks ≤ 665556) :
    blocks * time ≤ 10000 * (blocks * (time / 10) / 1000 + 600) := by
  have hdiv : time ≤ 10 * (time / 10) + 9 := by omega
  have hrest : blocks * time ≤ 10 * (blocks * (time / 10)) + 9 * blocks := by
    calc blocks * time ≤ blocks * (10 * (time / 10) + 9) := Nat.mul_le_mul_left _ hdiv
      _ = 10 * (blocks * (time / 10)) + 9 * blocks := by
          rw [Nat.mul_add, Nat.mul_left_comm, Nat.mul_comm blocks 9]
  omega

/-- All that a route waits for, one after the other. -/
def waits (settings : RouteSettings) : ℕ :=
  settings.relayDelaySecs + settings.startVerificationDelay + settings.minChallengePeriod

lemma waits_le_lookback {time delay challenge epoch : ℕ} (hblocks : blocks ≤ 665556)
    (htime : time < 2 ^ 40) (hdelay : delay < 2 ^ 40) (hchallenge : challenge < 2 ^ 40)
    (hepoch : epoch < 2 ^ 40) :
    waits (settingsOf (time / 10) blocks delay challenge epoch) ≤
      (settingsOf (time / 10) blocks delay challenge epoch).syncLookbackSecs := by
  obtain ⟨hrelay, hsmall⟩ := relayDelay_eq time delay challenge epoch hblocks htime
  unfold waits
  simp only [settingsOf, Startup.timingSafetyBufferSecs, u64] at hrelay ⊢
  omega

/-! ### The relays of a start -/

section
variable {N : Relays.Chains} {makeClaims : Bool}
  {c : Staged.Config Thread World Panic Query.Answer ℕ} {th : Thread → M Unit} {proof : List Word}
  {relay : Relay}

/-- **No relay before its message is confirmed.** A route of a start has been told the period after
which the rollup confirms a block, and the mean time of a block of Ethereum. When its dispatcher sends
the relay of a message, the outbox's chain has a block that is by that period younger than the block
of the message; if the period is no more than 665556 blocks, as many as make up for the rounding. -/
theorem relays_confirmed
    (h : (Startup.start cfg).run.Talks rely () heard (.ok (.ok routes)) u) (hroute : route ∈ routes)
    (hclock : k.Tells (Prog.In heard))
    (hperiod : ∀ blocks, ConfirmPeriod cfg (Prog.In heard) 1 blocks → blocks ≤ 665556)
    (htime : ∀ n, Relays.Sent N (route.configured cfg) relay n → N.inboxTime n < 2 ^ 40)
    (hc : (Main.routeSystem (route.configured cfg) makeClaims (Relays.Inv N (route.configured cfg))
      (Relays.Honest N) Relays.Resumed).Reachable c)
    (hth : c.stage = .running th)
    (hq : (th (.inl .dispatcher)).query? = some (.send (.executeTransaction proof relay))) :
    ∃ blocks latest n m, ConfirmPeriod cfg (Prog.In heard) 1 blocks ∧
      Prog.In heard (.blockNumber 1) (.ok latest) ∧ 10000 ≤ latest ∧
      Relays.Sent N (route.configured cfg) relay n ∧ m ≤ c.store.heads.outbox ∧
      blocks * k.span latest ≤ 10000 * (N.outboxTime m - N.inboxTime n) := by
  obtain ⟨ms, blocks, delay, challenge, epoch, hms, hblocks, -, -, -, hsettings⟩ :=
    measured_of_mem (started h) hroute
  obtain ⟨latest, hlatest, hmany, hle, rfl⟩ := blockTime_eq hclock hms
  obtain ⟨base, ⟨n, hsent, rfl⟩, m, hm, hbase⟩ := Relays.due_of_query hc hth hq
  refine ⟨blocks, latest, n, m, hblocks, hlatest, hmany, hsent, hm, ?_⟩
  have hshort : blocks ≤ 665556 := hperiod blocks hblocks
  obtain ⟨hdelay, hsmall⟩ := relayDelay_eq (k.span latest) delay.toNat challenge.toNat epoch.toNat
    hshort (Clock.span_lt hle)
  have hcovers := relayDelay_covers (k.span latest) hshort
  have hrouteDelay : (route.configured cfg).settings.relayDelaySecs =
      blocks * (k.span latest / 10) / 1000 + 600 := by
    rw [← hdelay, ← hsettings]
    rfl
  have hinbox : N.inboxTime n < 2 ^ 40 := htime n hsent
  rw [hrouteDelay] at hbase
  unfold u64 at hbase
  omega

end

/-! ### The logs of a start -/

/-- The outbox's parameters are times of which a sum fits in 64 bits. -/
def Modest (H : Startup.Answers) (route : Startup.Route) : Prop :=
  ∀ w, H (.sequencerDelayLimit route.outboxProvider route.outboxAddress) (.ok w) ∨
    H (.minChallengePeriod route.outboxProvider route.outboxAddress) (.ok w) ∨
    H (.epochPeriod route.outboxProvider route.outboxAddress) (.ok w) → w.toNat < 2 ^ 40

/-- **Nothing that still waits is missed.** In every run of a route of a start, with any panics, retries
and stops: every log in a block before the cursor is handled, unless it is older than the inbox's head
by more than all that the route waits for. -/
theorem waiting_logs_handled {chains : ScanTarget → Chain} {makeClaims : Bool}
    {c : Staged.Config Thread World Panic Query.Answer ℕ} {target : ScanTarget} {log : Log}
    {n cursor : ℕ}
    (h : (Startup.start cfg).run.Talks rely () heard (.ok (.ok routes)) u) (hroute : route ∈ routes)
    (hclock : k.Tells (Prog.In heard)) (hmodest : Modest (Prog.In heard) route)
    (hperiod : ∀ blocks, ConfirmPeriod cfg (Prog.In heard) 1 blocks → blocks ≤ 665556)
    (hmono : ∀ target, Monotone (chains target).ts)
    (hc : (Main.routeSystem (route.configured cfg) makeClaims Coverage.Fresh
      (Coverage.Faithful (route.configured cfg) chains) Restarted).Reachable c)
    (hcursor : c.store.lastBlock target = some cursor) (hlog : log ∈ (chains target).logs)
    (hn : log.blockNumber = some n) (hlt : n < cursor)
    (hwaits : (chains .inbox).ts c.store.heads.inbox ≤ (chains target).ts n + waits route.settings) :
    .handled target log ∈ c.store.log := by
  obtain ⟨ms, blocks, delay, challenge, epoch, hms, hblocks, hdelay, hchallenge, hepoch, hsettings⟩ :=
    measured_of_mem (started h) hroute
  obtain ⟨latest, -, -, hle, rfl⟩ := blockTime_eq hclock hms
  have hlookback : waits route.settings ≤ route.settings.syncLookbackSecs := by
    rw [hsettings]
    exact waits_le_lookback (hperiod blocks hblocks) (Clock.span_lt hle) (hmodest _ (.inl hdelay))
      (hmodest _ (.inr (.inl hchallenge))) (hmodest _ (.inr (.inr hepoch)))
  exact Window.handled_of_recent hmono hc hcursor hlog hn hlt
    (hwaits.trans (Nat.add_le_add_left hlookback _))

/-! ### A route of a start -/

def sampleRoute : Startup.Route :=
  { Startup.arbToEth Startup.sampleConfig 42161 1 ⟨none⟩ with settings := Startup.sampleSettings }

lemma mem_sampleRoutes : sampleRoute ∈ Startup.sampleRoutes := List.mem_cons_self

lemma monotone_sampleTime : Monotone fun n : ℕ => 12 * n := fun _ _ h => Nat.mul_le_mul_left 12 h

def sampleClock : Clock where
  ts n := 12 * n
  head := 20000
  ts_mono := monotone_sampleTime
  head_lt := by omega
  ts_lt := by omega

lemma of_sampleHeard {q : Startup.Query} {a : q.Answer} (h : Prog.In Startup.sampleHeard q a) :
    a = Startup.sampleNode q := Prog.of_mem_exchanges h

lemma tells_sampleClock : sampleClock.Tells (Prog.In Startup.sampleHeard) := by
  intro n block hblock
  have hsome : some block = if n ≤ 20000 then some ⟨n, 12 * n⟩ else none :=
    Except.ok.inj (of_sampleHeard hblock)
  split at hsome
  · next hn =>
    cases hsome
    exact ⟨hn, rfl⟩
  · cases hsome

lemma period_sample (blocks : ℕ)
    (h : ConfirmPeriod Startup.sampleConfig (Prog.In Startup.sampleHeard) 1 blocks) :
    blocks ≤ 665556 := by
  obtain ⟨rollup, period, -, hblocks, rfl⟩ := h
  have hperiod : period = 45818 := Except.ok.inj (of_sampleHeard hblocks)
  rw [hperiod, Startup.minConfirmPeriodBlocks]
  omega

theorem relays_confirmed_sample : ∃ blocks latest n m,
    ConfirmPeriod Startup.sampleConfig (Prog.In Startup.sampleHeard) 1 blocks ∧
    Prog.In Startup.sampleHeard (.blockNumber 1) (.ok latest) ∧ 10000 ≤ latest ∧
    Relays.Sent Relays.sampleChains Relays.sampleRoute ⟨1, 5, 6, 20, 10, 300, 0, [1, 2]⟩ n ∧
    m ≤ 500 ∧ blocks * sampleClock.span latest ≤ 10000 * (2000 * m - 10 * n) := by
  have htime : ∀ n, Relays.Sent Relays.sampleChains Relays.sampleRoute
      ⟨1, 5, 6, 20, 10, 300, 0, [1, 2]⟩ n → 10 * n < 2 ^ 40 := by
    rintro n ⟨txHash, receipt, tx, -, hreceipt, -, -, hn⟩
    cases hreceipt
    cases hn
    decide
  have hquery : (Relays.executing.thread (.inl .dispatcher)).query? =
      some (.send (.executeTransaction [1] ⟨1, 5, 6, 20, 10, 300, 0, [1, 2]⟩)) := by decide +kernel
  have hheads : Relays.executing.store.heads = Relays.sampleHeads := by decide +kernel
  have hreach := Relays.reachable_executing
  generalize Relays.executing = c at hquery hheads hreach
  obtain ⟨blocks, latest, n, m, hblocks, hlatest, hmany, hsent, hm, hle⟩ :=
    relays_confirmed (N := Relays.sampleChains) Startup.talks_sample mem_sampleRoutes
      tells_sampleClock period_sample htime hreach rfl hquery
  rw [hheads] at hm
  exact ⟨blocks, latest, n, m, hblocks, hlatest, hmany, hsent, hm, hle⟩

theorem waiting_logs_handled_sample :
    .handled .outbox (Sample.claimed 5 1 250) ∈ (Main.scanned Relays.sampleRoute).store.log := by
  have hmodest : Modest (Prog.In Startup.sampleHeard) sampleRoute := by
    intro w hw
    rcases hw with hw | hw | hw
    all_goals
      have hword := Except.ok.inj (of_sampleHeard hw)
      rw [hword]
      decide
  have hreach : (Main.sampleSystem Relays.sampleRoute).Reachable
      ⟨(Main.scanned Relays.sampleRoute).store, .running (Main.scanned Relays.sampleRoute).thread⟩ :=
    Main.reachable_scanned (by decide) (by decide +kernel) (by decide +kernel) (by decide +kernel)
      (by decide +kernel)
  have hcursor : (Main.scanned Relays.sampleRoute).store.lastBlock .outbox = some 280 := by
    decide +kernel
  have hheads : (Main.scanned Relays.sampleRoute).store.heads = Coverage.sampleHeads := by
    decide +kernel
  generalize Main.scanned Relays.sampleRoute = c at hreach hcursor hheads
  refine waiting_logs_handled Startup.talks_sample mem_sampleRoutes tells_sampleClock hmodest
    period_sample Coverage.monotone_sampleChains hreach hcursor (List.mem_singleton_self _) rfl
    (by decide) ?_
  rw [hheads]
  decide

/-! ### The claims and challenges of a start -/

/-- What does not change of the rollup: the times and the batches of its blocks, and the blocks of
Ethereum in which the sequencer's inbox got the batches. -/
structure Rollup where
  sequencerInbox : Address
  l2Time : ℕ → ℕ
  batchOf : ℕ → ℕ
  deliveredIn : ℕ → ℕ
  l2Time_mono : Monotone l2Time
  batchOf_mono : Monotone batchOf
  deliveredIn_mono : Monotone deliveredIn
  batchOf_lt : ∀ n, batchOf n < 2 ^ 64

/-- What the nodes say of the rollup is so. -/
def Rollup.Tells (R : Rollup) : (q : Query) → q.Answer → Prop
  | .blockByNumber .inbox .latest, .ok (some b) => b.timestamp = R.l2Time b.number
  | .blockByNumber .inbox (.number n), .ok (some b) => b.timestamp = R.l2Time n
  | .findBatchContainingBlock n, .ok batch => batch = R.batchOf n
  | .logs .ethereum f, .ok logs => f.address = R.sequencerInbox →
      f.eventSignature = [sigSequencerBatchDelivered] → ∀ batch < 2 ^ 64,
        f.topic1 = some (BitVec.ofNat 256 batch) →
          ∀ log ∈ logs, ∀ n, log.blockNumber = some n → n = R.deliveredIn batch
  | _, _ => True

/-- All blocks of the rollup before `epochEnd` that the inbox's node knows were delivered in blocks of
Ethereum that are final. -/
def Rollup.Settled (R : Rollup) (H : Audit.Answers) (epochEnd : ℕ) : Prop :=
  ∃ head block, H (.blockByNumber .inbox .latest) (.ok (some head)) ∧
    H (.blockByNumber .ethereum .finalized) (.ok (some block)) ∧
    ∀ b ≤ head.number, R.l2Time b < epochEnd → R.deliveredIn (R.batchOf b) ≤ block.number

section
variable {R : Rollup} {K : Audit.Answers} {e epochPeriod target r : ℕ}
  (hR : ∀ q a, K q a → R.Tells q a)

include hR

/-- The search for a time does not stop before a block of an earlier time. -/
lemma le_of_found (h : Audit.Found K .inbox target r) :
    ∃ head, K (.blockByNumber .inbox .latest) (.ok (some head)) ∧
      ∀ b ≤ head.number, R.l2Time b < target → b ≤ r := by
  obtain ⟨head, hhead, ⟨-, rfl⟩ | ⟨-, -, rfl | ⟨block, hblock, htarget⟩, -⟩⟩ := h
  · exact ⟨head, hhead, fun b hb _ => hb⟩
  · exact ⟨head, hhead, fun b hb _ => hb⟩
  · refine ⟨head, hhead, fun b _ hbefore => ?_⟩
    have htime : block.timestamp = R.l2Time r := hR _ _ hblock
    by_contra hlt
    have horder : R.l2Time r ≤ R.l2Time b := R.l2Time_mono (not_le.mp hlt).le
    omega

lemma settled_of_final (h : Audit.Final K R.sequencerInbox e epochPeriod) :
    R.Settled K (u64 (u64 (e + 1) * epochPeriod)) := by
  obtain ⟨l2Block, batch, fromBlock, toBlock, log, logs, n, block, hfound, hbatch, hlogs, hn, hblock,
    hfinal⟩ := h
  obtain ⟨head, hhead, hbefore⟩ := le_of_found hR hfound
  refine ⟨head, block, hhead, hblock, fun b hb hlt => ?_⟩
  obtain rfl : batch = R.batchOf l2Block := hR _ _ hbatch
  obtain rfl : n = R.deliveredIn (R.batchOf l2Block) :=
    hR _ _ hlogs rfl rfl _ (R.batchOf_lt l2Block) rfl log List.mem_cons_self n hn
  exact (R.deliveredIn_mono (R.batchOf_mono (hbefore b hb hlt))).trans hfinal

end

/-- The transaction claims the epoch, or challenges its claim. -/
def Asserts (tx : Tx) (e : ℕ) : Prop :=
  (∃ root value, tx = .claim e root value) ∨ ∃ claim value, tx = .challenge e claim value

lemma finalized_of_backed {route : VeaValidator.Route} {K : Audit.Answers} {tx : Tx} {e : ℕ}
    {w : World} (htx : Asserts tx e) (h : Audit.Backed route K tx w) : Audit.Finalized route K e := by
  rcases htx with ⟨root, value, rfl⟩ | ⟨claim, value, rfl⟩
  · exact h.1
  · exact h.1

/-- **Claims and challenges are about final epochs.** A program of a started validator, whose
configured sequencer's inbox is the rollup's, claims or challenges an epoch only when it has heard,
since its last transaction, that the blocks of the rollup up to the end of the epoch are final. -/
theorem claims_final {R : Rollup} {epochPeriod e : ℕ} {i : Thread} {p : M Unit}
    {others : World → World → Prop} {s w : World}
    {l : List ((q : Query) × q.Answer)} {tx : Tx}
    (h : (Startup.start cfg).run.Talks rely () heard (.ok (.ok routes)) u)
    (hinbox : ∀ inbox, cfg.sequencerInbox = some inbox → inbox = R.sequencerInbox)
    (hp : Main.branch (route.configured cfg) makeClaims epochPeriod i p)
    (hc : p.Comes others s l (.send tx) w) (hl : ∀ x ∈ l, R.Tells x.1 x.2) (htx : Asserts tx e) :
    ∃ old recent period, l = old ++ recent ∧ (∀ x ∈ recent, ∀ tx, x.1 ≠ .send tx) ∧
      Prog.In recent .epochPeriod (.ok period) ∧
      R.Settled (Prog.In recent) (u64 (u64 (e + 1) * period)) := by
  obtain ⟨old, recent, rfl, hsends, hbacked⟩ := Audit.backed_of_byBody (Audit.byBody_branch hp hc)
  obtain ⟨period, hperiod, hfinal⟩ := finalized_of_backed htx hbacked
  refine ⟨old, recent, period, rfl, hsends, hperiod, settled_of_final (fun q a ha => ?_) ?_⟩
  · exact hl ⟨q, a⟩ (List.mem_append_right old ha)
  · obtain ⟨inbox, hsome⟩ := Option.ne_none_iff_exists'.mp (started h).sequencerInbox
    rw [← hinbox inbox hsome]
    exact hfinal inbox hsome

/-! ### A claim of an epoch that is final -/

def sampleRollup : Rollup := { Finality.sampleLedger 1560 with sequencerInbox := 8 }

/-- The nodes twenty minutes after epoch 3. -/
def sampleNode : (q : Query) → q.Answer
  | .blockByNumber .inbox .latest => .ok (some ⟨1560, 15600⟩)
  | .blockByNumber .inbox (.number n) => .ok (some ⟨n, 10 * n⟩)
  | .blockByNumber .ethereum (.number n) => .ok (some ⟨n, 600 * n⟩)
  | .blockByNumber .ethereum _ => .ok (some ⟨26, 15600⟩)
  | .blockNumber .ethereum => .ok 26
  | .findBatchContainingBlock n => .ok (sampleRollup.batchOf n)
  | .logs .ethereum f => .ok [Finality.delivery (sampleRollup.deliveredIn (f.topic1.getD 0).toNat)]
  | q => Audit.sampleNode q

def sampleWatcher : M Unit :=
  EpochWatcher.watchEpochs (sampleRoute.configured Startup.sampleConfig) true 3600 1 {}

def sampleHeard : List ((q : Query) × q.Answer) :=
  sampleWatcher.exchanges sampleNode EpochWatcher.onSync

lemma tells_sampleNode (q : Query) : sampleRollup.Tells q (sampleNode q) := by
  cases q with
  | blockByNumber p n => cases p <;> cases n <;> first | exact rfl | trivial
  | findBatchContainingBlock n => exact rfl
  | logs p f =>
    cases p with
    | ethereum =>
      intro _ _ batch hbatch htopic log hlog n hn
      obtain rfl := List.mem_singleton.mp hlog
      obtain rfl := Option.some.inj hn
      rw [htopic, Option.getD_some, BitVec.toNat_ofNat]
      rw [Nat.mod_eq_of_lt (by omega)]
    | _ => trivial
  | _ => trivial

theorem claims_final_sample : ∃ old recent period, sampleHeard.take 28 = old ++ recent ∧
    (∀ x ∈ recent, ∀ tx, x.1 ≠ .send tx) ∧ Prog.In recent .epochPeriod (.ok period) ∧
    sampleRollup.Settled (Prog.In recent) (u64 (u64 (3 + 1) * period)) := by
  have hsplit : sampleHeard = sampleHeard.take 28 ++
      ⟨.send (.claim 3 7 (some 5)), .ok ()⟩ :: sampleHeard.drop 29 := by rfl
  have htalk := Prog.talks_exchanges (fun _ => rfl) sampleNode sampleWatcher EpochWatcher.onSync
  have hheard : ∀ x ∈ sampleHeard.take 28, sampleRollup.Tells x.1 x.2 := by
    intro x hx
    rw [Prog.of_mem_exchanges (List.mem_of_mem_take hx)]
    exact tells_sampleNode x.1
  change Prog.Talks _ _ _ sampleHeard _ _ at htalk
  rw [hsplit] at htalk
  obtain ⟨w, hw⟩ := htalk.comes
  have hinbox : ∀ inbox, Startup.sampleConfig.sequencerInbox = some inbox →
      inbox = sampleRollup.sequencerInbox := fun _ h => (Option.some.inj h).symm
  have hbranch : Main.branch (sampleRoute.configured Startup.sampleConfig) true 3600 (.inr ())
      sampleWatcher := ⟨1, rfl⟩
  exact claims_final Startup.talks_sample hinbox hbranch hw hheard (.inl ⟨7, some 5, rfl⟩)

end Validator

end VeaValidator
