import VeaValidator.Blocks
import VeaValidator.Coop.Local

/-!
When the finality check of an epoch can be trusted.

The check looks for the L2 block at the end of the epoch. While the L2 chain has not got there
the search answers with its head, and nothing tells the check: it goes on with the batch of
the head, and when that batch was delivered after the end of the epoch, in an L1 block that is
final, an open epoch is reported as final.
-/

namespace VeaValidator

open Coop

namespace Finality

/-- The two chains, and what their nodes report while the check of an epoch runs. -/
structure Ledger where
  l2Time : ℕ → ℕ
  l1Time : ℕ → ℕ
  /-- The batch of an L2 block. -/
  batchOf : ℕ → ℕ
  /-- The L1 block a batch is delivered in. -/
  deliveredIn : ℕ → ℕ
  l2Head : ℕ
  /-- What `eth_blockNumber` reports, which is asked before the latest L1 block. -/
  l1Number : ℕ
  l1Head : ℕ
  finalized : Option ℕ
  l2Time_mono : Monotone l2Time
  l1Time_mono : Monotone l1Time
  batchOf_mono : Monotone batchOf
  deliveredIn_mono : Monotone deliveredIn
  batchOf_lt : ∀ b, batchOf b < 2 ^ 64
  l1Number_le : l1Number ≤ l1Head

/-- The logs a node has of a delivery in block `n`, in a range of blocks. -/
def Delivery (logs : List Log) (n fromBlock toBlock : ℕ) : Prop :=
  (∀ log ∈ logs, log.blockNumber = some n) ∧ (logs ≠ [] ↔ fromBlock ≤ n ∧ n ≤ toBlock)

/-- The nodes answer the questions of the check from the ledger, or fail. -/
def Ledger.Tells (c : Ledger) (sequencerInbox : Address) : (q : Query) → q.Answer → World → Prop
  | .blockByNumber .inbox .latest, .ok (some b), _ => b = ⟨c.l2Head, c.l2Time c.l2Head⟩
  | .blockByNumber .inbox (.number n), .ok (some b), _ => b = ⟨n, c.l2Time n⟩
  | .blockByNumber .ethereum .latest, .ok (some b), _ => b = ⟨c.l1Head, c.l1Time c.l1Head⟩
  | .blockByNumber .ethereum (.number n), .ok (some b), _ => b = ⟨n, c.l1Time n⟩
  | .blockByNumber .ethereum .finalized, .ok b, _ => b.map Header.number = c.finalized
  | .blockNumber .ethereum, .ok n, _ => n = c.l1Number
  | .findBatchContainingBlock n, .ok batch, _ => batch = c.batchOf n
  | .logs .ethereum f, .ok logs, _ => f.address = sequencerInbox →
      f.eventSignature = [sigSequencerBatchDelivered] → ∀ batch < 2 ^ 64,
        f.topic1 = some (BitVec.ofNat 256 batch) →
        Delivery logs (c.deliveredIn batch) f.fromBlock f.toBlock
  | _, _, _ => True

/-! ### What the check finds -/

/-- The block a search for `target` returns on a chain with head `head`. -/
def Located (ts : ℕ → ℕ) (head target r : ℕ) : Prop :=
  ts head ≤ target ∧ r = head ∨ target < ts head ∧ IsFirstAt ts target r

lemma Located.unique {ts : ℕ → ℕ} {head target r r' : ℕ} (h : Located ts head target r)
    (h' : Located ts head target r') : r = r' := by
  rcases h with ⟨hle, rfl⟩ | ⟨hlt, hr, hbelow⟩
  · rcases h' with ⟨-, rfl⟩ | ⟨hlt, -⟩
    · rfl
    · omega
  · rcases h' with ⟨hle, -⟩ | ⟨-, h'⟩
    · omega
    · exact IsFirstAt.unique ⟨hr, hbelow⟩ h'

/-- Nothing behind the block that is found is before the target. -/
lemma Located.lt {ts : ℕ → ℕ} (hmono : Monotone ts) {head target r b : ℕ}
    (h : Located ts head target r) (hclosed : target ≤ ts head) (hb : ts b < target) : b < r := by
  by_contra hge
  have hle : ts r ≤ ts b := hmono (by omega)
  rcases h with ⟨-, rfl⟩ | ⟨-, hr, -⟩
  · omega
  · omega

/-- Block `n` is on one of the first `count` pages from `fromBlock` on. -/
def OnPage (latest count fromBlock n : ℕ) : Prop :=
  ∃ k < count, fromBlock + (searchRangeBlocks + 1) * k < latest ∧
    fromBlock + (searchRangeBlocks + 1) * k ≤ n ∧
    n ≤ min (fromBlock + (searchRangeBlocks + 1) * k + searchRangeBlocks) latest

/-- The L1 search from the time `target` on gets to block `n`. -/
def Ledger.Searched (c : Ledger) (target n : ℕ) : Prop :=
  ∃ start, Located c.l1Time c.l1Head target start ∧
    OnPage c.l1Number maxSearchIterations start n

/-- The delivery of the batch of L2 block `b` is found, and final. -/
def Ledger.Seen (c : Ledger) (target b : ℕ) : Prop :=
  c.Searched target (c.deliveredIn (c.batchOf b)) ∧
    ∃ f, c.finalized = some f ∧ c.deliveredIn (c.batchOf b) ≤ f

lemma onPage_cons {latest count fromBlock n : ℕ} (hlt : fromBlock < latest) :
    OnPage latest (count + 1) fromBlock n ↔
      (fromBlock ≤ n ∧ n ≤ min (fromBlock + searchRangeBlocks) latest) ∨
        OnPage latest count (min (fromBlock + searchRangeBlocks) latest + 1) n := by
  unfold OnPage searchRangeBlocks
  constructor
  · rintro ⟨k, hk, hfrom, hle, hn⟩
    rcases k with _ | k
    · exact .inl ⟨by omega, by omega⟩
    · exact .inr ⟨k, by omega, by omega, by omega, by omega⟩
  · rintro (⟨hle, hn⟩ | ⟨k, hk, hfrom, hle, hn⟩)
    · exact ⟨0, by omega, by omega, by omega, by omega⟩
    · exact ⟨k + 1, by omega, by omega, by omega, by omega⟩

/-! ### The rules of the check -/

section
variable {c : Ledger} {sequencerInbox : Address} {target : ℕ} {s : World}

/-- The check with answers from the ledger, among others that do whatever they like. -/
abbrev told (c : Ledger) (sequencerInbox : Address) : Protocol Unit World Panic Query.Answer :=
  .disturbed (fun _ _ => True) (c.Tells sequencerInbox) fun _ _ => True

lemma patient_told : Patient (told c sequencerInbox) () fun _ => True where
  rely _ _ _ _ _ := trivial
  issue _ _ _ _ _ := trivial
  fault _ _ _ _ _ := trivial

lemma wp_locate_inbox : (findBlockByTimestamp .inbox target).wp (told c sequencerInbox) ()
    (fun r _ => Located c.l2Time c.l2Head target r) s := by
  refine Prog.wp_mono ?_ (wp_findBlockByTimestamp patient_told c.l2Time_mono (L := (· = c.l2Head))
    (fun b t _ _ hb => ?_) (fun n b t _ _ hb => ?_) trivial trivial)
  · rintro r t ⟨⟨latest, rfl, -, hr⟩, -⟩
    exact hr
  · obtain rfl : b = ⟨c.l2Head, c.l2Time c.l2Head⟩ := hb
    exact ⟨rfl, rfl⟩
  · obtain rfl : b = ⟨n, c.l2Time n⟩ := hb
    rfl

lemma wp_locate_ethereum : (findBlockByTimestamp .ethereum target).wp (told c sequencerInbox) ()
    (fun r _ => Located c.l1Time c.l1Head target r) s := by
  refine Prog.wp_mono ?_ (wp_findBlockByTimestamp patient_told c.l1Time_mono (L := (· = c.l1Head))
    (fun b t _ _ hb => ?_) (fun n b t _ _ hb => ?_) trivial trivial)
  · rintro r t ⟨⟨latest, rfl, -, hr⟩, -⟩
    exact hr
  · obtain rfl : b = ⟨c.l1Head, c.l1Time c.l1Head⟩ := hb
    exact ⟨rfl, rfl⟩
  · obtain rfl : b = ⟨n, c.l1Time n⟩ := hb
    rfl

lemma wp_searchBatch {batch latest iterations fromBlock : ℕ} (hbatch : batch < 2 ^ 64) :
    (searchBatch sequencerInbox batch latest iterations fromBlock).run.wp (told c sequencerInbox) ()
      (fun r _ => ∀ n, r = .ok (some n) → n = c.deliveredIn batch ∧
        OnPage latest iterations fromBlock n) s := by
  induction iterations generalizing fromBlock s with
  | zero => exact fun n hn => by cases hn
  | succ count ih =>
    rw [searchBatch, Prog.wp_run_ite]
    refine ⟨fun hlt => ?_, fun _ n hn => by cases hn⟩
    rw [Prog.wp_run_bind, wp_run_rpc]
    refine ⟨trivial, trivial, fun t _ _ a ha => ?_⟩
    rcases a with err | logs
    · exact fun n hn => by cases hn
    obtain ⟨hall, hfound⟩ := ha rfl rfl batch hbatch rfl
    rcases logs with _ | ⟨log, logs⟩
    · refine Prog.wp_mono (fun r u hr n hn => ?_) ih
      exact ⟨(hr n hn).1, (onPage_cons hlt).mpr (.inr (hr n hn).2)⟩
    · intro n hn
      have hn' : log.blockNumber = some n := Except.ok.inj hn
      rw [hall log List.mem_cons_self] at hn'
      cases hn'
      exact ⟨rfl, (onPage_cons hlt).mpr (.inl (hfound.mp (List.cons_ne_nil _ _)))⟩

/-- **The rule of the check.** An epoch that is final ends at a block whose batch has been
seen. -/
lemma wp_isEpochFinalized {epoch period : ℕ} :
    (isEpochFinalized epoch period (some sequencerInbox)).run.wp (told c sequencerInbox) ()
      (fun r _ => r = .ok true → ∃ b, Located c.l2Time c.l2Head (u64 (u64 (epoch + 1) * period)) b ∧
        c.Seen (u64 (u64 (epoch + 1) * period)) b) s := by
  unfold isEpochFinalized
  dsimp only
  rw [Prog.wp_run_lift_bind]
  refine Prog.wp_mono (fun b t hb => ?_) wp_locate_inbox
  rw [getBatchForBlock, Prog.wp_run_bind, wp_run_rpc]
  refine ⟨trivial, trivial, fun u _ _ a ha => ?_⟩
  rcases a with err | batch
  · exact fun h => by cases h
  obtain rfl : batch = c.batchOf b := ha
  dsimp only
  rw [getL1BlockForBatch, Prog.wp_run_bind, Prog.wp_run_bind, wp_run_rpc]
  refine ⟨trivial, trivial, fun v _ _ a ha => ?_⟩
  rcases a with err | latest
  · exact fun h => by cases h
  obtain rfl : latest = c.l1Number := ha
  dsimp only
  rw [Prog.wp_run_lift_bind]
  refine Prog.wp_mono (fun start x hstart => ?_) wp_locate_ethereum
  refine Prog.wp_mono (fun r y hr => ?_) (wp_searchBatch (c.batchOf_lt b))
  rcases r with err | _ | n
  · exact fun h => by cases h
  · exact fun h => by cases h
  obtain ⟨rfl, hpage⟩ := hr n rfl
  dsimp only
  rw [Prog.wp_run_bind, wp_run_rpc]
  refine ⟨trivial, trivial, fun z _ _ a ha => ?_⟩
  rcases a with err | _ | block
  · exact fun h => by cases h
  · exact fun h => by cases h
  · intro htrue
    have hle : c.deliveredIn (c.batchOf b) ≤ block.number := by
      have hdec : decide (block.number ≥ c.deliveredIn (c.batchOf b)) = true :=
        Except.ok.inj htrue
      exact of_decide_eq_true hdec
    have hfinal : c.finalized = some block.number := Eq.symm ha
    exact ⟨b, hb, ⟨start, hstart, hpage⟩, block.number, hfinal, hle⟩

/-! ### Nodes that do not fail -/

def delivery (n : ℕ) : Log := ⟨[sigSequencerBatchDelivered], [], some n, none, none⟩

/-- Nodes that answer every question of the check. -/
def Ledger.node (c : Ledger) : (q : Query) → q.Answer
  | .blockByNumber .inbox .latest => .ok (some ⟨c.l2Head, c.l2Time c.l2Head⟩)
  | .blockByNumber .inbox (.number n) => .ok (some ⟨n, c.l2Time n⟩)
  | .blockByNumber .ethereum .latest => .ok (some ⟨c.l1Head, c.l1Time c.l1Head⟩)
  | .blockByNumber .ethereum (.number n) => .ok (some ⟨n, c.l1Time n⟩)
  | .blockByNumber .ethereum .finalized => .ok (c.finalized.map fun n => ⟨n, c.l1Time n⟩)
  | .blockNumber .ethereum => .ok c.l1Number
  | .findBatchContainingBlock n => .ok (c.batchOf n)
  | .logs .ethereum f =>
    let n := c.deliveredIn ((f.topic1.getD 0).toNat)
    .ok (if f.fromBlock ≤ n ∧ n ≤ f.toBlock then [delivery n] else [])
  | _ => .error ""

lemma tells_node (q : Query) (s : World) : c.Tells sequencerInbox q (c.node q) s := by
  cases q with
  | blockByNumber p n =>
    cases p with
    | inbox => cases n <;> first | rfl | trivial
    | outbox => trivial
    | ethereum =>
      cases n with
      | latest => rfl
      | number n => rfl
      | finalized =>
        show (c.finalized.map fun n => (⟨n, c.l1Time n⟩ : Header)).map Header.number = _
        cases c.finalized <;> rfl
  | blockNumber p => cases p <;> first | rfl | trivial
  | findBatchContainingBlock n => rfl
  | logs p f =>
    cases p with
    | inbox => trivial
    | outbox => trivial
    | ethereum =>
      intro _ _ batch hbatch htopic
      have hnat : ((f.topic1.getD 0).toNat) = batch := by
        rw [htopic, Option.getD_some, BitVec.toNat_ofNat]
        omega
      unfold Delivery
      simp only [hnat]
      split
      · next hin => exact ⟨by simp [delivery], by simpa using hin⟩
      · next hout => exact ⟨by simp, by simpa using hout⟩
  | _ => trivial

lemma runs_node {α : Type} (sequencerInbox : Address) (p : M α) :
    p.Runs (fun _ _ => True) (c.Tells sequencerInbox) s (p.eval c.node s).1 (p.eval c.node s).2 :=
  Prog.runs_eval (fun _ => trivial) (fun q t => tells_node q t) p s

/-- What is known of every run is known of this one. -/
lemma eval_told {α : Type} {p : M α} {R : α → World → Prop} (sequencerInbox : Address)
    (h : p.wp (told c sequencerInbox) () R s) {a : α} {t : World}
    (ha : p.eval c.node s = (.ok a, t)) : R a t := by
  have hrun := (Prog.wp_runs_disturbed h (runs_node sequencerInbox p)).1
  rw [ha] at hrun
  exact hrun a rfl

lemma eval_findBlockByTimestamp {o : (q : Query) → q.Answer} {p : Provider}
    (hlatest : ∃ b, o (.blockByNumber p .latest) = .ok (some b))
    (h : ∀ n, ∃ b, o (.blockByNumber p (.number n)) = .ok (some b)) :
    ∃ r, (findBlockByTimestamp p target).eval o s = (.ok r, s) := by
  obtain ⟨b, hb⟩ := hlatest
  obtain ⟨r, hr⟩ : ∃ r, (findBlockByTimestamp p target).Runs (fun s t => t = s)
      (fun q a _ => a = o q) s (.ok r) s := by
    refine runs_findBlockByTimestamp ?_ ⟨b, ?_⟩ (fun n => ?_) target
    · rfl
    · exact hb.symm
    · exact (h n).imp fun _ hn => hn.symm
  exact ⟨r, Prog.eval_of_runs hr⟩

lemma eval_searchBatch {batch latest iterations fromBlock : ℕ} (hbatch : batch < 2 ^ 64)
    (h : OnPage latest iterations fromBlock (c.deliveredIn batch)) :
    (searchBatch sequencerInbox batch latest iterations fromBlock).run.eval c.node s =
      (.ok (.ok (some (c.deliveredIn batch))), s) := by
  induction iterations generalizing fromBlock with
  | zero =>
    obtain ⟨k, hk, -⟩ := h
    omega
  | succ count ih =>
    have hlt : fromBlock < latest := by
      obtain ⟨k, -, hfrom, -⟩ := h
      unfold searchRangeBlocks at hfrom
      omega
    have htopic : (BitVec.ofNat 256 batch).toNat = batch := by
      rw [BitVec.toNat_ofNat]
      omega
    rw [searchBatch, if_pos hlt]
    dsimp only
    rw [Prog.eval_run_bind_ok (t := s) (a := if fromBlock ≤ c.deliveredIn batch ∧
      c.deliveredIn batch ≤ min (fromBlock + searchRangeBlocks) latest then
        [delivery (c.deliveredIn batch)] else [])]
    · by_cases hin : fromBlock ≤ c.deliveredIn batch ∧
          c.deliveredIn batch ≤ min (fromBlock + searchRangeBlocks) latest
      · rw [if_pos hin]
        rfl
      · rw [if_neg hin]
        exact ih (((onPage_cons hlt).mp h).resolve_left hin)
    · show (Except.ok (c.node _), s) = _
      simp only [Ledger.node, Option.getD_some, htopic]

/-- What is seen is found when no node fails. -/
lemma eval_isEpochFinalized (sequencerInbox : Address) {epoch period b : ℕ}
    (hb : Located c.l2Time c.l2Head (u64 (u64 (epoch + 1) * period)) b)
    (hseen : c.Seen (u64 (u64 (epoch + 1) * period)) b) :
    (isEpochFinalized epoch period (some sequencerInbox)).run.eval c.node s =
      (.ok (.ok true), s) := by
  obtain ⟨⟨start, hstart, hpage⟩, f, hf, hle⟩ := hseen
  unfold isEpochFinalized
  dsimp only
  generalize u64 (u64 (epoch + 1) * period) = target at hb hstart ⊢
  obtain ⟨b', hb'⟩ : ∃ r, (findBlockByTimestamp .inbox target).eval c.node s = (.ok r, s) :=
    eval_findBlockByTimestamp ⟨_, rfl⟩ fun _ => ⟨_, rfl⟩
  obtain rfl : b = b' := hb.unique (eval_told sequencerInbox wp_locate_inbox hb')
  rw [Prog.eval_run_lift_bind_ok hb']
  rw [Prog.eval_run_bind_ok (a := c.batchOf b) (t := s) rfl]
  obtain ⟨start', hstart'⟩ :
      ∃ r, (findBlockByTimestamp .ethereum target).eval c.node s = (.ok r, s) :=
    eval_findBlockByTimestamp ⟨_, rfl⟩ fun _ => ⟨_, rfl⟩
  obtain rfl : start = start' := hstart.unique (eval_told sequencerInbox wp_locate_ethereum hstart')
  have hsearch : (getL1BlockForBatch sequencerInbox (c.batchOf b) target).run.eval c.node s =
      (.ok (.ok (some (c.deliveredIn (c.batchOf b)))), s) := by
    rw [getL1BlockForBatch, Prog.eval_run_bind_ok (a := c.l1Number) (t := s) rfl,
      Prog.eval_run_lift_bind_ok hstart']
    exact eval_searchBatch (c.batchOf_lt b) hpage
  rw [Prog.eval_run_bind_ok hsearch]
  dsimp only
  rw [Prog.eval_run_bind_ok (a := some ⟨f, c.l1Time f⟩) (t := s)]
  · show (Except.ok (Except.ok (decide _)), s) = _
    rw [decide_eq_true hle]
  · show (Except.ok (c.node _), s) = _
    simp only [Ledger.node, hf, Option.map_some]

end

/-! ### The theorem -/

/-- What a final epoch is: it is closed, and all its L2 blocks are in final L1 blocks. -/
def Ledger.Sound (c : Ledger) (epochEnd : ℕ) : Prop :=
  epochEnd ≤ c.l2Time c.l2Head ∧ ∀ b, c.l2Time b < epochEnd →
    ∃ f, c.finalized = some f ∧ c.deliveredIn (c.batchOf b) ≤ f

/-- **Finality is sound exactly when the head is past the epoch or unseen.** No run of the check
reports an epoch as final that is not, if and only if the L2 chain has reached the end of the
epoch, or the batch of its head is not found in a final L1 block after the end of the epoch. -/
theorem finality_sound_iff (c : Ledger) (sequencerInbox : Address) {epoch period : ℕ}
    (hperiod : 0 < period) (h64 : (epoch + 1) * period < 2 ^ 64) (s : World) :
    (∀ t, (isEpochFinalized epoch period (some sequencerInbox)).run.Runs (fun _ _ => True)
        (c.Tells sequencerInbox) s (.ok (.ok true)) t → c.Sound ((epoch + 1) * period)) ↔
      (epoch + 1) * period ≤ c.l2Time c.l2Head ∨ ¬c.Seen ((epoch + 1) * period) c.l2Head := by
  have hend : u64 (u64 (epoch + 1) * period) = (epoch + 1) * period := by
    have hle : epoch + 1 ≤ (epoch + 1) * period := Nat.le_mul_of_pos_right _ hperiod
    unfold u64
    rw [Nat.mod_eq_of_lt (a := epoch + 1) (by omega), Nat.mod_eq_of_lt h64]
  constructor
  · intro h
    by_contra hnot
    obtain ⟨hopen, hseen⟩ := not_or.mp hnot
    rw [not_not] at hseen
    have hhead : Located c.l2Time c.l2Head ((epoch + 1) * period) c.l2Head :=
      .inl ⟨by omega, rfl⟩
    rw [← hend] at hhead hseen
    have heval := eval_isEpochFinalized (s := s) sequencerInbox hhead hseen
    have hrun := runs_node (c := c) (s := s) sequencerInbox
      (isEpochFinalized epoch period (some sequencerInbox)).run
    rw [heval] at hrun
    exact hopen (h s hrun).1
  · intro hcond t hrun
    obtain ⟨b, hb, ⟨hsearched, f, hf, hle⟩⟩ :=
      (Prog.wp_runs_disturbed wp_isEpochFinalized hrun).1 _ rfl rfl
    rw [hend] at hb hsearched
    have hclosed : (epoch + 1) * period ≤ c.l2Time c.l2Head := by
      by_contra hopen
      obtain rfl : b = c.l2Head := by
        rcases hb with ⟨-, rfl⟩ | ⟨hlt, -⟩
        · rfl
        · omega
      exact (hcond.resolve_left hopen) ⟨hsearched, f, hf, hle⟩
    refine ⟨hclosed, fun b' hb' => ⟨f, hf, le_trans ?_ hle⟩⟩
    -- The block is before the one that was found, and so is its batch.
    exact c.deliveredIn_mono (c.batchOf_mono (hb.lt c.l2Time_mono hclosed hb').le)

/-! ### An L2 chain that is behind -/

/-- L2 blocks come every 10 seconds and L1 blocks every 12. The batches up to the fifth are
delivered in L1 block 12, the others in block 25, and L1 is final up to block 20. -/
def sampleLedger (l2Head : ℕ) : Ledger where
  l2Time n := 10 * n
  l1Time n := 12 * n
  batchOf n := min n 100
  deliveredIn n := if n ≤ 5 then 12 else 25
  l2Head
  l1Number := 30
  l1Head := 30
  finalized := some 20
  l2Time_mono _ _ h := Nat.mul_le_mul_left 10 h
  l1Time_mono _ _ h := Nat.mul_le_mul_left 12 h
  batchOf_mono _ _ h := by
    dsimp only
    omega
  deliveredIn_mono _ _ h := by
    dsimp only
    split <;> split <;> omega
  batchOf_lt b := by omega
  l1Number_le := le_rfl

/-- The check of an epoch that the L2 head has passed. -/
theorem finality_sound_iff_sample : (0 + 1) * 50 ≤ (sampleLedger 7).l2Time (sampleLedger 7).l2Head ∧
    ∀ t, (isEpochFinalized 0 50 (some 1)).run.Runs (fun _ _ => True) ((sampleLedger 7).Tells 1) {}
      (.ok (.ok true)) t → (sampleLedger 7).Sound ((0 + 1) * 50) :=
  ⟨by decide, (finality_sound_iff (sampleLedger 7) 1 (by decide) (by decide) {}).mpr
    (.inl (by decide))⟩

lemma seen_sample : (sampleLedger 5).Seen 100 5 := by
  refine ⟨⟨9, .inr ⟨by decide, by decide, fun b hb => ?_⟩, 0, by decide, by decide, by decide,
    by decide⟩, 20, rfl, by decide⟩
  show 12 * b < 100
  omega

/-- The L2 head is at 50 seconds and the epoch ends at 100, but the batch of the head was
delivered at 144 seconds: the check says that the epoch is final. -/
theorem open_epoch_final : ∃ t,
    (isEpochFinalized 0 100 (some 1)).run.Runs (fun _ _ => True) ((sampleLedger 5).Tells 1) {}
      (.ok (.ok true)) t ∧ (sampleLedger 5).l2Time (sampleLedger 5).l2Head < (0 + 1) * 100 ∧
      ∃ b, (sampleLedger 5).l2Time b < (0 + 1) * 100 ∧
        ∀ f, (sampleLedger 5).finalized = some f →
          f < (sampleLedger 5).deliveredIn ((sampleLedger 5).batchOf b) := by
  refine ⟨{}, ?_, by decide, 6, by decide, fun f hf => ?_⟩
  · have hrun := runs_node (c := sampleLedger 5) (s := {}) 1 (isEpochFinalized 0 100 (some 1)).run
    rwa [eval_isEpochFinalized (b := 5) 1 (.inl ⟨by decide, rfl⟩) seen_sample] at hrun
  · cases hf
    decide

end Finality

end VeaValidator
