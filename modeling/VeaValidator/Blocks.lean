import VeaValidator.World

/-!
Looking up blocks: the retrying fetch, the binary search for a timestamp, and the finality
check of an epoch.

None of this writes anything, so a role that waits for it keeps all it knows.
-/

namespace VeaValidator

open Coop

/-- `RPC_RETRY_DELAYS` -/
def rpcRetryDelays : List ℕ := [5, 15, 45]

/-- The attempts of `get_block_with_retry` that are left, one for each delay. -/
def getBlockAttempts (provider : Provider) (block : BlockNumberOrTag) : List ℕ → M Header
  | [] => .panic .unreachable
  | delay :: delays => do
    match ← Prog.ask (A := Query.Answer) (.blockByNumber provider block) with
    | .ok (some b) => pure b
    | .ok none => .panic (.blockNotFound block)
    | .error e =>
      if delays = [] then
        .panic (.failedToGetBlock block e)
      else do
        sleep delay
        getBlockAttempts provider block delays

def getBlockWithRetry (provider : Provider) (block : BlockNumberOrTag) : M Header :=
  getBlockAttempts provider block rpcRetryDelays

/-- The loop of `find_block_by_timestamp`; every turn shrinks `hi - lo`. -/
def bisect (provider : Provider) (targetTs : ℕ) : ℕ → ℕ → ℕ → M ℕ
  | 0, lo, _ => pure lo
  | fuel + 1, lo, hi =>
    if lo < hi then do
      let mid := lo + (hi - lo) / 2
      let block ← getBlockWithRetry provider (.number mid)
      if block.timestamp < targetTs then
        bisect provider targetTs fuel (mid + 1) hi
      else
        bisect provider targetTs fuel lo mid
    else
      pure lo

def findBlockByTimestamp (provider : Provider) (targetTs : ℕ) : M ℕ := do
  let latest ← getBlockWithRetry provider .latest
  if targetTs ≥ latest.timestamp then
    pure latest.number
  else
    bisect provider targetTs latest.number 0 latest.number

/-- The fuel of the loop never runs out. -/
lemma bisect_fuel (provider : Provider) (targetTs : ℕ) {fuel fuel' lo hi : ℕ}
    (h : hi - lo ≤ fuel) (h' : hi - lo ≤ fuel') :
    bisect provider targetTs fuel lo hi = bisect provider targetTs fuel' lo hi := by
  induction fuel generalizing fuel' lo hi with
  | zero =>
    have hlo : ¬lo < hi := by omega
    cases fuel' with
    | zero => rfl
    | succ n => simp [bisect, hlo]
  | succ n ih =>
    by_cases hlo : lo < hi
    · obtain ⟨n', rfl⟩ : ∃ n', fuel' = n' + 1 := ⟨fuel' - 1, by omega⟩
      simp only [bisect, hlo, if_true]
      have hmid : lo + (hi - lo) / 2 < hi := by omega
      have hup : hi - (lo + (hi - lo) / 2 + 1) ≤ n' := by omega
      have hdown : lo + (hi - lo) / 2 - lo ≤ n' := by omega
      refine bind_congr fun block => ?_
      rw [ih (by omega) hup, ih (by omega) hdown]
    · cases fuel' with
      | zero => simp [bisect, hlo]
      | succ n' => simp [bisect, hlo]

/-! ### Finality -/

/-- `NODE_INTERFACE` is behind the query `findBatchContainingBlock`. -/
def getBatchForBlock (l2Block : ℕ) : Fallible ℕ := rpc (.findBatchContainingBlock l2Block)

def searchRangeBlocks : ℕ := 2000
def maxSearchIterations : ℕ := 10

/-- The loop of `get_l1_block_for_batch`, with the iterations that are left. Its sums are on block
numbers before `latest` and are not reduced. -/
def searchBatch (sequencerInbox : Address) (batch latest : ℕ) : ℕ → ℕ → Fallible (Option ℕ)
  | 0, _ => pure none
  | iterations + 1, fromBlock =>
    if fromBlock < latest then do
      let toBlock := min (fromBlock + searchRangeBlocks) latest
      let logs ← rpc (.logs .ethereum {
        address := sequencerInbox
        eventSignature := [sigSequencerBatchDelivered]
        topic1 := some (BitVec.ofNat 256 batch)
        fromBlock
        toBlock })
      match logs with
      | log :: _ => pure log.blockNumber
      | [] => searchBatch sequencerInbox batch latest iterations (toBlock + 1)
    else
      pure none

def getL1BlockForBatch (sequencerInbox : Address) (batch epochEndTs : ℕ) :
    Fallible (Option ℕ) := do
  let latest ← rpc (.blockNumber .ethereum)
  let startBlock ← ExceptT.lift (findBlockByTimestamp .ethereum epochEndTs)
  searchBatch sequencerInbox batch latest maxSearchIterations startBlock

def isEpochFinalized (epoch epochPeriod : ℕ) (sequencerInbox : Option Address) :
    Fallible Bool := do
  match sequencerInbox with
  | none => pure true
  | some sequencerInbox => do
    let epochEndTs := u64 (u64 (epoch + 1) * epochPeriod)
    let l2Block ← ExceptT.lift (findBlockByTimestamp .inbox epochEndTs)
    let batch ← getBatchForBlock l2Block
    match ← getL1BlockForBatch sequencerInbox batch epochEndTs with
    | none => pure false
    | some l1Block =>
      match ← rpc (.blockByNumber .ethereum .finalized) with
      | some block => pure (decide (block.number ≥ l1Block))
      | none => pure false

/-! ### What a role knows after a lookup -/

section
variable {ι : Type} {P : Protocol ι World Panic Query.Answer} {i : ι} {s : World}
  {J : World → Prop} {provider : Provider}

/-- A block that is fetched in the end is one the node has just answered with. -/
lemma wp_getBlockAttempts (h : Patient P i J) {block : BlockNumberOrTag}
    {B : Header → World → Prop}
    (hB : ∀ b t, P.inv t → J t →
      P.answer i (.blockByNumber provider block) (.ok (some b)) t → B b t)
    {delays : List ℕ} (hd : delays ≠ []) (hI : P.inv s) (hJ : J s) :
    (getBlockAttempts provider block delays).wp P i (fun b t => B b t ∧ P.inv t ∧ J t) s := by
  induction delays generalizing s with
  | nil => exact absurd rfl hd
  | cons delay delays ih =>
    rw [getBlockAttempts, Prog.wp_bind, Prog.wp_ask]
    refine ⟨hI, h.issue _ s trivial hI hJ, fun t ht hIt a ha => ?_⟩
    have hJt := h.rely s t hJ ht hIt
    rcases a with e | _ | b
    · rw [Prog.wp_ite]
      refine ⟨fun _ => ⟨hIt, h.fault _ t trivial hIt hJt⟩, fun hne => ?_⟩
      rw [Prog.wp_bind, wp_sleep]
      refine ⟨hIt, h.issue _ t trivial hIt hJt, fun u hu hIu _ _ => ?_⟩
      exact ih hne hIu (h.rely t u hJt hu hIu)
    · exact ⟨hIt, h.fault _ t trivial hIt hJt⟩
    · exact ⟨hB b t hIt hJt ha, hIt, hJt⟩

lemma wp_getBlockWithRetry (h : Patient P i J) {block : BlockNumberOrTag}
    {B : Header → World → Prop}
    (hB : ∀ b t, P.inv t → J t →
      P.answer i (.blockByNumber provider block) (.ok (some b)) t → B b t)
    (hI : P.inv s) (hJ : J s) :
    (getBlockWithRetry provider block).wp P i (fun b t => B b t ∧ P.inv t ∧ J t) s :=
  wp_getBlockAttempts h hB (by simp [rpcRetryDelays]) hI hJ

/-- **The rule of the bisection.** `Q lo hi` is what is known of the interval. -/
lemma wp_bisect (h : Patient P i J) {Q : ℕ → ℕ → Prop} {target : ℕ}
    (hstep : ∀ lo hi b t, lo < hi → Q lo hi → P.inv t → J t →
      P.answer i (.blockByNumber provider (.number (lo + (hi - lo) / 2))) (.ok (some b)) t →
      (b.timestamp < target → Q (lo + (hi - lo) / 2 + 1) hi) ∧
        (¬b.timestamp < target → Q lo (lo + (hi - lo) / 2)))
    {fuel lo hi : ℕ} (hlh : lo ≤ hi) (hfuel : hi - lo ≤ fuel) (hQ : Q lo hi) (hI : P.inv s)
    (hJ : J s) :
    (bisect provider target fuel lo hi).wp P i (fun r t => Q r r ∧ P.inv t ∧ J t) s := by
  induction fuel generalizing lo hi s with
  | zero =>
    obtain rfl : lo = hi := by omega
    exact ⟨hQ, hI, hJ⟩
  | succ fuel ih =>
    rw [bisect, Prog.wp_ite]
    refine ⟨fun hlt => ?_, fun hge => ?_⟩
    · have hmid : lo + (hi - lo) / 2 < hi := by omega
      rw [Prog.wp_bind]
      refine Prog.wp_mono ?_ (wp_getBlockWithRetry h
        (fun b t hIt hJt ha => hstep lo hi b t hlt hQ hIt hJt ha) hI hJ)
      rintro b t ⟨⟨hup, hdown⟩, hIt, hJt⟩
      rw [Prog.wp_ite]
      constructor
      · intro hbt
        exact ih (by omega) (by omega) (hup hbt) hIt hJt
      · intro hbt
        exact ih (by omega) (by omega) (hdown hbt) hIt hJt
    · obtain rfl : lo = hi := by omega
      exact ⟨hQ, hI, hJ⟩

/-- `r` is the first block at or after `target` on a chain whose block `n` has time `ts n`. -/
def IsFirstAt (ts : ℕ → ℕ) (target r : ℕ) : Prop := target ≤ ts r ∧ ∀ b < r, ts b < target

lemma IsFirstAt.unique {ts : ℕ → ℕ} {target r r' : ℕ} (h : IsFirstAt ts target r)
    (h' : IsFirstAt ts target r') : r = r' := by
  rcases lt_trichotomy r r' with hlt | rfl | hlt
  · exact absurd (h'.2 r hlt) h.1.not_gt
  · rfl
  · exact absurd (h.2 r' hlt) h'.1.not_gt

/-- **The block search.** On a chain with non-decreasing times the search returns the head
when the head is not after the target, and else the first block at or after it. -/
theorem wp_findBlockByTimestamp (h : Patient P i J) {ts : ℕ → ℕ} (hmono : Monotone ts)
    {target : ℕ} {L : ℕ → Prop}
    (hlatest : ∀ b t, P.inv t → J t →
      P.answer i (.blockByNumber provider .latest) (.ok (some b)) t →
        L b.number ∧ b.timestamp = ts b.number)
    (hts : ∀ n b t, P.inv t → J t →
      P.answer i (.blockByNumber provider (.number n)) (.ok (some b)) t → b.timestamp = ts n)
    (hI : P.inv s) (hJ : J s) :
    (findBlockByTimestamp provider target).wp P i (fun r t =>
      (∃ latest, L latest ∧ r ≤ latest ∧
        (ts latest ≤ target ∧ r = latest ∨ target < ts latest ∧ IsFirstAt ts target r)) ∧
      P.inv t ∧ J t) s := by
  rw [findBlockByTimestamp, Prog.wp_bind]
  refine Prog.wp_mono ?_ (wp_getBlockWithRetry h hlatest hI hJ)
  rintro b t ⟨⟨hL, hb⟩, hIt, hJt⟩
  rw [Prog.wp_ite]
  constructor
  · intro hge
    exact ⟨⟨b.number, hL, le_rfl, .inl ⟨by omega, rfl⟩⟩, hIt, hJt⟩
  · intro hlt
    have hfuel : b.number - 0 ≤ b.number := by omega
    have htop : target ≤ ts b.number := by omega
    -- All blocks below `lo` are before the target, the block `hi` is not.
    refine Prog.wp_mono ?_ (wp_bisect (Q := fun lo hi => hi ≤ b.number ∧
      (∀ c < lo, ts c < target) ∧ target ≤ ts hi) h ?_ (Nat.zero_le b.number) hfuel
      ⟨le_rfl, fun c hc => absurd hc (Nat.not_lt_zero c), htop⟩ hIt hJt)
    · rintro r u ⟨⟨hr, hbelow, hat⟩, hu⟩
      exact ⟨⟨b.number, hL, hr, .inr ⟨by omega, hat, hbelow⟩⟩, hu⟩
    · rintro lo hi b' u hlh ⟨hhi, hbelow, hat⟩ hIu hJu ha
      have hb' : b'.timestamp = ts (lo + (hi - lo) / 2) := hts _ b' u hIu hJu ha
      refine ⟨fun hbt => ⟨hhi, fun c hc => ?_, hat⟩, fun hbt => ⟨by omega, hbelow, by omega⟩⟩
      have hle : ts c ≤ ts (lo + (hi - lo) / 2) := hmono (by omega)
      omega

/-- The search never goes beyond the head, whatever the times of the blocks are. -/
theorem wp_findBlockByTimestamp_le (h : Patient P i J) {target : ℕ} {head : World → ℕ}
    (hhead : ∀ s t, P.rely i s t → head s ≤ head t)
    (hlatest : ∀ b t, P.inv t → J t →
      P.answer i (.blockByNumber provider .latest) (.ok (some b)) t → b.number ≤ head t)
    (hI : P.inv s) (hJ : J s) :
    (findBlockByTimestamp provider target).wp P i
      (fun r t => r ≤ head t ∧ P.inv t ∧ J t) s := by
  rw [findBlockByTimestamp, Prog.wp_bind]
  refine Prog.wp_mono ?_ (wp_getBlockWithRetry h hlatest hI hJ)
  rintro b t ⟨hb, hIt, hJt⟩
  rw [Prog.wp_ite]
  refine ⟨fun _ => ⟨hb, hIt, hJt⟩, fun _ => ?_⟩
  have hp : Patient P i fun u => J u ∧ b.number ≤ head u :=
    { rely := fun u v hu huv hIv => ⟨h.rely u v hu.1 huv hIv, hu.2.trans (hhead u v huv)⟩
      issue := fun q u hq hIu hu => h.issue q u hq hIu hu.1
      fault := fun e u he hIu hu => h.fault e u he hIu hu.1 }
  refine Prog.wp_mono ?_ (wp_bisect (Q := fun _ hi => hi ≤ b.number) hp
    (fun lo hi _ _ hlh hhi _ _ _ => ⟨fun _ => hhi, fun _ => by omega⟩) (Nat.zero_le b.number)
    (Nat.sub_le _ _) le_rfl hIt ⟨hJt, hb⟩)
  rintro r u ⟨hr, hIu, hJu, hbu⟩
  exact ⟨hr.trans hbu, hIu, hJu⟩

end

/-! ### A lookup that comes back -/

section
variable {rely : World → World → Prop} {answer : (q : Query) → q.Answer → World → Prop}
  {s : World} {provider : Provider}

lemma runs_getBlockWithRetry {block : BlockNumberOrTag} {b : Header} (hrely : rely s s)
    (h : answer (.blockByNumber provider block) (.ok (some b)) s) :
    (getBlockWithRetry provider block).Runs rely answer s (.ok b) s :=
  ⟨s, hrely, .ok (some b), h, rfl, rfl⟩

lemma runs_bisect (hrely : rely s s)
    (h : ∀ n, ∃ b, answer (.blockByNumber provider (.number n)) (.ok (some b)) s)
    (target fuel lo hi : ℕ) :
    ∃ r, (bisect provider target fuel lo hi).Runs rely answer s (.ok r) s := by
  induction fuel generalizing lo hi with
  | zero => exact ⟨lo, rfl, rfl⟩
  | succ fuel ih =>
    rw [bisect]
    split
    · obtain ⟨b, hb⟩ := h (lo + (hi - lo) / 2)
      obtain ⟨r, hr⟩ : ∃ r, (if b.timestamp < target then
          bisect provider target fuel (lo + (hi - lo) / 2 + 1) hi
        else bisect provider target fuel lo (lo + (hi - lo) / 2)).Runs rely answer s (.ok r) s := by
        split
        · exact ih _ _
        · exact ih _ _
      exact ⟨r, Prog.runs_bind.mpr (.inl ⟨b, s, runs_getBlockWithRetry hrely hb, hr⟩)⟩
    · exact ⟨lo, rfl, rfl⟩

/-- When every block is answered at once, the search has a run. -/
lemma runs_findBlockByTimestamp (hrely : rely s s)
    (hlatest : ∃ b, answer (.blockByNumber provider .latest) (.ok (some b)) s)
    (h : ∀ n, ∃ b, answer (.blockByNumber provider (.number n)) (.ok (some b)) s) (target : ℕ) :
    ∃ r, (findBlockByTimestamp provider target).Runs rely answer s (.ok r) s := by
  obtain ⟨b, hb⟩ := hlatest
  obtain ⟨r, hr⟩ : ∃ r, (if target ≥ b.timestamp then pure b.number
      else bisect provider target b.number 0 b.number).Runs rely answer s (.ok r) s := by
    split
    · exact ⟨b.number, rfl, rfl⟩
    · exact runs_bisect hrely h _ _ _ _
  exact ⟨r, Prog.runs_bind.mpr (.inl ⟨b, s, runs_getBlockWithRetry hrely hb, hr⟩)⟩

end

lemma quiet_getBlockAttempts (provider : Provider) (block : BlockNumberOrTag) :
    ∀ delays, delays ≠ [] → Quiet (getBlockAttempts provider block delays)
  | [], h => absurd rfl h
  | delay :: delays, _ => by
    refine Prog.Keeps.bind (Quiet.ask trivial) fun a => ?_
    rcases a with e | _ | b
    · by_cases hd : delays = []
      · simp only [hd, if_true]
        exact Quiet.panic trivial
      · simp only [hd, if_false]
        exact Prog.Keeps.bind Quiet.sleep fun _ => quiet_getBlockAttempts provider block delays hd
    · exact Quiet.panic trivial
    · exact Prog.Keeps.pure

lemma quiet_getBlockWithRetry (provider : Provider) (block : BlockNumberOrTag) :
    Quiet (getBlockWithRetry provider block) :=
  quiet_getBlockAttempts provider block rpcRetryDelays (by simp [rpcRetryDelays])

lemma quiet_bisect (provider : Provider) (target fuel lo hi : ℕ) :
    Quiet (bisect provider target fuel lo hi) := by
  induction fuel generalizing lo hi with
  | zero => exact Prog.Keeps.pure
  | succ fuel ih =>
    rw [bisect]
    split
    · refine Prog.Keeps.bind (quiet_getBlockWithRetry provider _) fun b => ?_
      split
      · exact ih _ _
      · exact ih _ _
    · exact Prog.Keeps.pure

lemma quiet_findBlockByTimestamp (provider : Provider) (target : ℕ) :
    Quiet (findBlockByTimestamp provider target) := by
  refine Prog.Keeps.bind (quiet_getBlockWithRetry provider _) fun b => ?_
  split
  · exact Prog.Keeps.pure
  · exact quiet_bisect provider target _ _ _

lemma quiet_searchBatch (sequencerInbox : Address) (batch latest iterations fromBlock : ℕ) :
    Quiet (searchBatch sequencerInbox batch latest iterations fromBlock).run := by
  induction iterations generalizing fromBlock with
  | zero => exact Prog.Keeps.run_pure
  | succ n ih =>
    rw [searchBatch]
    split
    · refine Prog.Keeps.run_bind (Quiet.rpc trivial) fun logs => ?_
      cases logs with
      | nil => exact ih _
      | cons log _ => exact Prog.Keeps.run_pure
    · exact Prog.Keeps.run_pure

lemma quiet_isEpochFinalized (epoch epochPeriod : ℕ) (sequencerInbox : Option Address) :
    Quiet (isEpochFinalized epoch epochPeriod sequencerInbox).run := by
  cases sequencerInbox with
  | none => exact Prog.Keeps.run_pure
  | some sequencerInbox =>
    refine Prog.Keeps.run_bind (Prog.Keeps.run_lift (quiet_findBlockByTimestamp _ _)) fun l2Block => ?_
    refine Prog.Keeps.run_bind (Quiet.rpc trivial) fun batch => ?_
    refine Prog.Keeps.run_bind ?_ fun l1Block => ?_
    · refine Prog.Keeps.run_bind (Quiet.rpc trivial) fun latest => ?_
      refine Prog.Keeps.run_bind (Prog.Keeps.run_lift (quiet_findBlockByTimestamp _ _)) fun startBlock => ?_
      exact quiet_searchBatch _ _ _ _ _
    · cases l1Block with
      | none => exact Prog.Keeps.run_pure
      | some l1Block =>
        refine Prog.Keeps.run_bind (Quiet.rpc trivial) fun block => ?_
        cases block with
        | none => exact Prog.Keeps.run_pure
        | some block => exact Prog.Keeps.run_pure

end VeaValidator
