import VeaValidator.Handlers

/-!
The scan loop of the indexer.

Each chain has a persisted cursor, the last block of the last chunk it has handled, and a
catch-up target kept in memory until the cursor has reached it. A chunk starts at the cursor
itself.
-/

namespace VeaValidator

open Coop

/-! ### The catch-up atomics -/

namespace World

def catchup (w : World) : ScanTarget → Catchup
  | .inbox => w.inboxCatchup
  | .outbox => w.outboxCatchup

def setCatchup (w : World) (target : ScanTarget) (c : Catchup) : World :=
  match target with
  | .inbox => { w with inboxCatchup := c }
  | .outbox => { w with outboxCatchup := c }

section
variable (w : World) (target target' : ScanTarget) (c : Catchup) (e : ℕ)

@[simp] lemma catchup_setCatchup : (w.setCatchup target c).catchup target' =
    if target' = target then c else w.catchup target' := by
  cases target <;> cases target' <;> rfl

@[simp] lemma schedule_setCatchup : (w.setCatchup target c).schedule = w.schedule := by
  cases target <;> rfl

@[simp] lemma claim?_setCatchup : (w.setCatchup target c).claim? e = w.claim? e := by
  cases target <;> rfl

@[simp] lemma log_setCatchup : (w.setCatchup target c).log = w.log := by
  cases target <;> rfl

@[simp] lemma heads_setCatchup : (w.setCatchup target c).heads = w.heads := by
  cases target <;> rfl

@[simp] lemma lastBlock_setCatchup :
    (w.setCatchup target c).lastBlock target' = w.lastBlock target' := by
  cases target <;> rfl

end

end World

namespace Indexer

def chunkSize : ℕ := 2000
def finalityBufferSecs : ℕ := 20 * 60
def catchupSleep : ℕ := 1
def idleSleep : ℕ := 5 * 60

def provider : ScanTarget → Provider
  | .inbox => .inbox
  | .outbox => .outbox

lemma provider_injective {target target' : ScanTarget} (h : provider target = provider target') :
    target' = target := by
  cases target <;> cases target' <;> first | rfl | cases h

def address (route : Route) : ScanTarget → Address
  | .inbox => route.inboxAddress
  | .outbox => route.outboxAddress

def eventSigs : ScanTarget → List Word
  | .inbox => [sigSnapshotSent, sigSnapshotSaved]
  | .outbox => [sigClaimed, sigVerificationStarted, sigChallenged, sigVerified]

def catchup (target : ScanTarget) : M Catchup := Prog.gets (·.catchup target)

/-- The stores to the atomics of a chain. -/
def modifyCatchup (target : ScanTarget) (f : Catchup → Catchup) : M Unit :=
  Prog.modify fun w => w.setCatchup target (f (w.catchup target))

/-! ### Scanning -/

/-- The target of the catch-up, searched again when there is none or it has been reached. -/
def catchupTarget (target : ScanTarget) (now fromBlock : ℕ) : M ℕ := do
  let targetBlock := (← catchup target).target
  if targetBlock = 0 ∨ fromBlock ≥ targetBlock then do
    let targetTs := now - finalityBufferSecs
    let targetBlock ← findBlockByTimestamp (provider target) targetTs
    modifyCatchup target fun c => { c with target := targetBlock }
    pure targetBlock
  else
    pure targetBlock

/-- The bookkeeping after a chunk: the progress that has been logged, or a fresh start. -/
def finishChunk (toBlock targetBlock : ℕ) (c : Catchup) : Catchup :=
  if toBlock ≥ targetBlock then
    {}
  else if c.start ≠ 0 then
    let total := targetBlock - c.start
    let done := toBlock - c.start
    let pct := if total > 0 then done * 100 / total else 100
    if pct / 10 > c.lastLoggedPct / 10 then { c with lastLoggedPct := pct } else c
  else
    c

lemma finishChunk_target (toBlock targetBlock : ℕ) (c : Catchup) :
    (finishChunk toBlock targetBlock c).target = if toBlock ≥ targetBlock then 0 else c.target := by
  have hif : ∀ (p : Prop) [Decidable p] (d : Catchup), d.target = c.target →
      (if p then d else c).target = c.target := by
    intro p _ d hd
    split
    · exact hd
    · rfl
  unfold finishChunk
  split
  · rfl
  · split
    · exact hif _ _ rfl
    · rfl

lemma finishChunk_target_le (toBlock targetBlock : ℕ) (c : Catchup) :
    (finishChunk toBlock targetBlock c).target ≤ c.target := by
  rw [finishChunk_target]
  split
  · exact Nat.zero_le _
  · exact le_rfl

/-- `fromBlock + chunkSize` is a `u64` as long as the cursor is below `2 ^ 64 - 2000`. -/
def scanChunk (route : Route) (target : ScanTarget) (fromBlock targetBlock : ℕ) : M Bool := do
  let toBlock := min (fromBlock + chunkSize) targetBlock
  match ← Prog.ask (A := Query.Answer) (.logs (provider target) {
      address := address route target
      eventSignature := eventSigs target
      fromBlock
      toBlock }) with
  | .ok logs => do
    forM logs (handle route target)
    TaskStore.updateBlock target fromBlock toBlock logs
    modifyCatchup target (finishChunk toBlock targetBlock)
    pure (decide (toBlock ≥ targetBlock))
  | .error _ => pure false

/-- The `expect` on the cursor of a chain. -/
def cursor (target : ScanTarget) : M ℕ := do
  match ← Prog.gets fun w => w.lastBlock target with
  | some block => pure block
  | none => .panic (.lastBlockNotSet target)

def scanChain (route : Route) (target : ScanTarget) : M Bool := do
  match ← Prog.ask (A := Query.Answer) (.blockNumber (provider target)) with
  | .error _ => pure false
  | .ok currentBlock =>
    match ← Prog.ask (A := Query.Answer)
        (.blockByNumber (provider target) (.number currentBlock)) with
    | .ok (some currentBlockData) => do
      let now := currentBlockData.timestamp
      let fromBlock ← cursor target
      let targetBlock ← catchupTarget target now fromBlock
      if fromBlock ≥ targetBlock then do
        modifyCatchup target fun _ => {}
        pure true
      else do
        if (← catchup target).start = 0 then
          modifyCatchup target fun c => { c with start := fromBlock, lastLoggedPct := 0 }
        scanChunk route target fromBlock targetBlock
    | _ => pure false

def scanOnce (route : Route) : M Bool := do
  let inboxDone ← scanChain route .inbox
  let outboxDone ← scanChain route .outbox
  pure (inboxDone && outboxDone)

/-- The first `n` turns of the loop that never ends. -/
def run (route : Route) : ℕ → M Unit
  | 0 => pure ()
  | n + 1 => do
    let done ← scanOnce route
    if done then do
      if !(← TaskStore.isOnSync) then
        TaskStore.setOnSync true
      sleep idleSleep
    else
      sleep catchupSleep
    run route n

/-! ### Starting -/

/-- The timestamp of a block that has to be there. -/
def blockTimestamp (provider : Provider) (block : BlockNumberOrTag) (failed missing : String) :
    M ℕ := do
  let answer ← Prog.ask (A := Query.Answer) (.blockByNumber provider block)
  let b ← expectOk failed answer
  let b ← expectSome missing b
  pure b.timestamp

/-- `EventIndexer::initialize` -/
def initializeIndexer (route : Route) : M Unit := do
  TaskStore.setOnSync false
  let state ← TaskStore.load
  let inboxNow ← blockTimestamp .inbox .latest "Failed to get inbox block" "Inbox block not found"
  let needsInit ← match state.inboxLastBlock, state.outboxLastBlock with
    | some inboxB, some outboxB => do
      let inboxTs ← blockTimestamp .inbox (.number inboxB)
        "Failed to get inbox last block" "Inbox last block not found"
      let outboxTs ← blockTimestamp .outbox (.number outboxB)
        "Failed to get outbox last block" "Outbox last block not found"
      pure (decide (inboxTs < inboxNow - route.settings.syncLookbackSecs ∨
        outboxTs < inboxNow - route.settings.syncLookbackSecs))
    | _, _ => pure true
  if needsInit then do
    let indexingSince := inboxNow - route.settings.syncLookbackSecs
    let inboxStart ← findBlockByTimestamp .inbox indexingSince
    let outboxStart ← findBlockByTimestamp .outbox indexingSince
    TaskStore.initializeSync indexingSince inboxStart outboxStart
  else
    pure ()

/-! ### The rules of a scan -/

section
variable {ι : Type} {P : Protocol ι World Panic Query.Answer} {i : ι} {J : World → Prop}
  {route : Route} {target : ScanTarget} {s : World}

@[simp] lemma wp_modifyCatchup {f : Catchup → Catchup} {R : Unit → World → Prop} :
    (modifyCatchup target f).wp P i R s ↔
      P.guar i s (s.setCatchup target (f (s.catchup target))) ∧
      P.durable (s.setCatchup target (f (s.catchup target))) ∧
      R () (s.setCatchup target (f (s.catchup target))) := Iff.rfl

lemma wp_cursor {R : ℕ → World → Prop}
    (hnone : s.lastBlock target = none → P.inv s ∧ P.fault i (.lastBlockNotSet target) s)
    (hsome : ∀ b, s.lastBlock target = some b → R b s) : (cursor target).wp P i R s := by
  rw [cursor, Prog.wp_bind, Prog.wp_gets]
  cases hb : s.lastBlock target with
  | none => exact hnone hb
  | some b => exact hsome b hb

lemma wp_blockTimestamp (h : Patient P i J) {provider : Provider} {block : BlockNumberOrTag}
    {failed missing : String} {B : ℕ → World → Prop}
    (hB : ∀ b t, P.inv t → J t →
      P.answer i (.blockByNumber provider block) (.ok (some b)) t → B b.timestamp t)
    (hI : P.inv s) (hJ : J s) :
    (blockTimestamp provider block failed missing).wp P i
      (fun ts t => B ts t ∧ P.inv t ∧ J t) s := by
  rw [blockTimestamp, Prog.wp_bind, Prog.wp_ask]
  refine ⟨hI, h.issue _ s trivial hI hJ, fun t ht hIt a ha => ?_⟩
  have hJt := h.rely s t hJ ht hIt
  rcases a with err | _ | b
  · exact ⟨hIt, h.fault _ t trivial hIt hJt⟩
  · exact ⟨hIt, h.fault _ t trivial hIt hJt⟩
  · exact ⟨hB b t hIt hJt ha, hIt, hJt⟩

/-- **The rule of an initialisation.** It keeps the two cursors it finds, or sets both from the
time of the head, of which `B` is known. -/
lemma wp_initializeIndexer (h : Patient P i J) {B : ℕ → World → Prop} {R : Unit → World → Prop}
    (hoff : P.guar i s (s.setOnSync false) ∧ P.durable (s.setOnSync false))
    (hI : P.inv (s.setOnSync false)) (hJ : J (s.setOnSync false))
    (hnow : ∀ b t, P.inv t → J t →
      P.answer i (.blockByNumber .inbox .latest) (.ok (some b)) t → B b.timestamp t)
    (hlater : ∀ now t u, B now t → P.rely i t u → P.inv u → B now u)
    (hresume : s.lastBlock .inbox ≠ none → s.lastBlock .outbox ≠ none →
      ∀ t, P.inv t → J t → R () t)
    (hsync : ∀ now t, B now t → P.inv t → J t → ((do
      let inboxStart ← findBlockByTimestamp .inbox (now - route.settings.syncLookbackSecs)
      let outboxStart ← findBlockByTimestamp .outbox (now - route.settings.syncLookbackSecs)
      TaskStore.initializeSync (now - route.settings.syncLookbackSecs) inboxStart
        outboxStart) : M Unit).wp P i R t) :
    (initializeIndexer route).wp P i R s := by
  rw [initializeIndexer, Prog.wp_bind, wp_setOnSync]
  refine ⟨hoff.1, hoff.2, ?_⟩
  rw [Prog.wp_bind, wp_load, Prog.wp_bind]
  refine Prog.wp_mono ?_ (wp_blockTimestamp h hnow hI hJ)
  rintro now t ⟨hB, hIt, hJt⟩
  have hp : Patient P i fun u => J u ∧ B now u :=
    { h with
      rely := fun u v hu hrel hIv => ⟨h.rely u v hu.1 hrel hIv, hlater now u v hu.2 hrel hIv⟩
      issue := fun q u hq hIu hu => h.issue q u hq hIu hu.1
      fault := fun e u he hIu hu => h.fault e u he hIu hu.1 }
  have hinbox : (s.setOnSync false).schedule.inboxLastBlock = s.lastBlock .inbox := rfl
  have houtbox : (s.setOnSync false).schedule.outboxLastBlock = s.lastBlock .outbox := rfl
  rw [hinbox, houtbox]
  rcases hin : s.lastBlock .inbox with _ | inboxB
  · exact hsync now t hB hIt hJt
  rcases hout : s.lastBlock .outbox with _ | outboxB
  · exact hsync now t hB hIt hJt
  dsimp only
  rw [Prog.wp_bind]
  refine Prog.wp_mono ?_ (wp_blockTimestamp (B := fun _ _ => True) hp (fun _ _ _ _ _ => trivial)
    hIt ⟨hJt, hB⟩)
  rintro inboxTs u ⟨-, hIu, hu⟩
  rw [Prog.wp_bind]
  refine Prog.wp_mono ?_ (wp_blockTimestamp (B := fun _ _ => True) hp (fun _ _ _ _ _ => trivial)
    hIu hu)
  rintro outboxTs v ⟨-, hIv, hJv, hBv⟩
  rw [pure_bind, Prog.wp_ite]
  refine ⟨fun _ => hsync now v hBv hIv hJv, fun _ => hresume ?_ ?_ v hIv hJv⟩
  · rw [hin]
    exact Option.some_ne_none inboxB
  · rw [hout]
    exact Option.some_ne_none outboxB

/-- Role `i` can scan a chain without giving up `J`: the cursor is its own, the heads only grow,
and the target of the catch-up is never beyond the head. -/
structure Scans (P : Protocol ι World Panic Query.Answer) (i : ι) (target : ScanTarget)
    (J : World → Prop) : Prop extends Patient P i J where
  cursor : ∀ s, P.inv s → J s → s.lastBlock target ≠ none
  own : ∀ s t, P.rely i s t → t.lastBlock target = s.lastBlock target
  heads : ∀ s t, P.rely i s t →
    s.heads.get (provider target) ≤ t.heads.get (provider target)
  latest : ∀ b t, P.inv t →
    P.answer i (.blockByNumber (provider target) .latest) (.ok (some b)) t →
    b.number ≤ t.heads.get (provider target)
  bound : ∀ s, P.inv s → J s → (s.catchup target).target ≤ s.heads.get (provider target)
  set : ∀ c s, P.inv s → J s → c.target ≤ s.heads.get (provider target) →
    P.guar i s (s.setCatchup target c) ∧ P.durable (s.setCatchup target c) ∧
      P.inv (s.setCatchup target c) ∧ J (s.setCatchup target c)

/-- While it scans from `fromBlock`, the cursor is there. -/
lemma Scans.at (h : Scans P i target J) (fromBlock : ℕ) :
    Scans P i target fun t => J t ∧ t.lastBlock target = some fromBlock where
  rely s t hs ht hIt := ⟨h.rely s t hs.1 ht hIt, by rw [h.own s t ht, hs.2]⟩
  issue q s hq hI hs := h.issue q s hq hI hs.1
  fault e s he hI hs := h.fault e s he hI hs.1
  cursor s hI hs := h.cursor s hI hs.1
  own := h.own
  heads := h.heads
  latest := h.latest
  bound s hI hs := h.bound s hI hs.1
  set c s hI hs hc := by
    obtain ⟨hg, hd, hI', hJ'⟩ := h.set c s hI hs.1 hc
    exact ⟨hg, hd, hI', hJ', by rw [World.lastBlock_setCatchup, hs.2]⟩

lemma wp_catchupTarget (h : Scans P i target J) {now fromBlock : ℕ} (hI : P.inv s) (hJ : J s) :
    (catchupTarget target now fromBlock).wp P i
      (fun r t => r ≤ t.heads.get (provider target) ∧ P.inv t ∧ J t) s := by
  rw [catchupTarget, catchup, Prog.wp_bind, Prog.wp_gets, Prog.wp_ite]
  refine ⟨fun _ => ?_, fun _ => ⟨h.bound s hI hJ, hI, hJ⟩⟩
  rw [Prog.wp_bind]
  refine Prog.wp_mono ?_ (wp_findBlockByTimestamp_le h.toPatient h.heads
    (fun b t hIt _ => h.latest b t hIt) hI hJ)
  rintro r t ⟨hr, hIt, hJt⟩
  obtain ⟨hg, hd, hI', hJ'⟩ := h.set { t.catchup target with target := r } t hIt hJt hr
  rw [Prog.wp_bind, wp_modifyCatchup]
  exact ⟨hg, hd, by rwa [World.heads_setCatchup], hI', hJ'⟩

/-- The filter of a chunk. -/
def chunkFilter (route : Route) (target : ScanTarget) (fromBlock toBlock : ℕ) : Filter where
  address := address route target
  eventSignature := eventSigs target
  fromBlock
  toBlock

/-- **The rule of a chunk.** What is to be shown is what becomes of the logs of one chunk, which
starts at the cursor, ends behind it and is not beyond the head. -/
lemma wp_scanChunk (h : Scans P i target J) {fromBlock targetBlock : ℕ}
    (hlt : fromBlock < targetBlock) (hle : targetBlock ≤ s.heads.get (provider target))
    (hcursor : s.lastBlock target = some fromBlock)
    (hchunk : ∀ toBlock logs t, fromBlock < toBlock → toBlock ≤ t.heads.get (provider target) →
      t.lastBlock target = some fromBlock →
      P.answer i (.logs (provider target) (chunkFilter route target fromBlock toBlock))
        (.ok logs) t → P.inv t → J t →
      ((do
        forM logs (handle route target)
        TaskStore.updateBlock target fromBlock toBlock logs) : M Unit).wp P i
          (fun _ u => P.inv u ∧ J u) t)
    (hI : P.inv s) (hJ : J s) :
    (scanChunk route target fromBlock targetBlock).wp P i (fun _ t => P.inv t ∧ J t) s := by
  rw [scanChunk, Prog.wp_bind, Prog.wp_ask]
  refine ⟨hI, h.issue _ s trivial hI hJ, fun t ht hIt a ha => ?_⟩
  have hJt := h.rely s t hJ ht hIt
  cases a with
  | error e => exact ⟨hIt, hJt⟩
  | ok logs =>
    have hto : fromBlock < min (fromBlock + chunkSize) targetBlock := by
      simp only [chunkSize]
      omega
    have hhead : min (fromBlock + chunkSize) targetBlock ≤ t.heads.get (provider target) :=
      (min_le_right _ _).trans (hle.trans (h.heads s t ht))
    have hw := hchunk _ logs t hto hhead (by rw [h.own s t ht, hcursor]) ha hIt hJt
    dsimp only
    rw [← bind_assoc, Prog.wp_bind]
    refine Prog.wp_mono ?_ hw
    rintro _ u ⟨hIu, hJu⟩
    have hbound : (finishChunk (min (fromBlock + chunkSize) targetBlock) targetBlock
        (u.catchup target)).target ≤ u.heads.get (provider target) := by
      exact (finishChunk_target_le _ _ _).trans (h.bound u hIu hJu)
    obtain ⟨hg, hd, hI', hJ'⟩ := h.set _ u hIu hJu hbound
    rw [Prog.wp_bind, wp_modifyCatchup]
    exact ⟨hg, hd, hI', hJ'⟩

/-- **The rule of a scan.** -/
lemma wp_scanChain (h : Scans P i target J)
    (hchunk : ∀ fromBlock toBlock logs t, fromBlock < toBlock →
      toBlock ≤ t.heads.get (provider target) → t.lastBlock target = some fromBlock →
      P.answer i (.logs (provider target) (chunkFilter route target fromBlock toBlock))
        (.ok logs) t → P.inv t → J t →
      ((do
        forM logs (handle route target)
        TaskStore.updateBlock target fromBlock toBlock logs) : M Unit).wp P i
          (fun _ u => P.inv u ∧ J u) t)
    (hI : P.inv s) (hJ : J s) :
    (scanChain route target).wp P i (fun _ t => P.inv t ∧ J t) s := by
  rw [scanChain, Prog.wp_bind, Prog.wp_ask]
  refine ⟨hI, h.issue _ s trivial hI hJ, fun t ht hIt a _ => ?_⟩
  have hJt := h.rely s t hJ ht hIt
  rcases a with e | currentBlock
  · exact ⟨hIt, hJt⟩
  dsimp only
  rw [Prog.wp_bind, Prog.wp_ask]
  refine ⟨hIt, h.issue _ t trivial hIt hJt, fun u hu hIu b _ => ?_⟩
  have hJu := h.rely t u hJt hu hIu
  rcases b with e | _ | block
  · exact ⟨hIu, hJu⟩
  · exact ⟨hIu, hJu⟩
  dsimp only
  rw [Prog.wp_bind]
  refine wp_cursor (fun hnone => absurd hnone (h.cursor u hIu hJu)) fun fromBlock hfrom => ?_
  rw [Prog.wp_bind]
  refine Prog.wp_mono ?_ (wp_catchupTarget (h.at fromBlock) hIu ⟨hJu, hfrom⟩)
  rintro targetBlock v ⟨hle, hIv, hJv⟩
  rw [Prog.wp_ite]
  refine ⟨fun _ => ?_, fun hlt => ?_⟩
  · obtain ⟨hg, hd, hI', hJ', -⟩ := (h.at fromBlock).set {} v hIv hJv (Nat.zero_le _)
    rw [Prog.wp_bind, wp_modifyCatchup]
    exact ⟨hg, hd, hI', hJ'⟩
  · have hscan : ∀ x, targetBlock ≤ x.heads.get (provider target) → P.inv x →
        J x ∧ x.lastBlock target = some fromBlock →
        (scanChunk route target fromBlock targetBlock).wp P i (fun _ t => P.inv t ∧ J t) x :=
      fun x hx hIx hJx => wp_scanChunk h (by omega) hx hJx.2 (hchunk fromBlock) hIx hJx.1
    rw [catchup, Prog.wp_bind, Prog.wp_gets]
    by_cases hstart : (v.catchup target).start = 0
    · have hbound := (h.at fromBlock).bound v hIv hJv
      obtain ⟨hg, hd, hI', hJ'⟩ := (h.at fromBlock).set
        { v.catchup target with start := fromBlock, lastLoggedPct := 0 } v hIv hJv hbound
      simp only [hstart, if_true]
      rw [Prog.wp_bind, wp_modifyCatchup]
      exact ⟨hg, hd, hscan _ (by rwa [World.heads_setCatchup]) hI' hJ'⟩
    · simp only [hstart, if_false]
      exact hscan v hle hIv hJv

/-- A scan under a protocol that leaves the catch-up and the cursor to it keeps what the handlers
keep. -/
lemma keeps_scanChain (h : Patient P i J)
    (hcursor : ∀ s, P.inv s → J s → P.fault i (.lastBlockNotSet target) s)
    (hcatchup : ∀ f, Prog.Keeps P i J (modifyCatchup target f))
    (hblock : ∀ a b logs, Prog.Keeps P i J (TaskStore.updateBlock target a b logs))
    (hhandle : ∀ log, Prog.Keeps P i J (handle route target log)) :
    Prog.Keeps P i J (scanChain route target) := by
  have htarget : ∀ now fromBlock, Prog.Keeps P i J (catchupTarget target now fromBlock) := by
    intro now fromBlock
    refine Prog.Keeps.bind Prog.Keeps.gets fun c => Prog.Keeps.ite (fun _ => ?_) fun _ => Prog.Keeps.pure
    refine Prog.Keeps.bind (h.keeps (quiet_findBlockByTimestamp _ _)) fun b => ?_
    exact Prog.Keeps.bind (hcatchup _) fun _ => Prog.Keeps.pure
  have hchunk : ∀ fromBlock targetBlock, Prog.Keeps P i J
      (scanChunk route target fromBlock targetBlock) := by
    intro fromBlock targetBlock
    refine Prog.Keeps.bind (h.keeps (Quiet.ask trivial)) fun answer => ?_
    cases answer with
    | error e => exact Prog.Keeps.pure
    | ok logs =>
      refine Prog.Keeps.bind (Prog.Keeps.forM hhandle logs) fun _ => ?_
      refine Prog.Keeps.bind (hblock _ _ _) fun _ => ?_
      exact Prog.Keeps.bind (hcatchup _) fun _ => Prog.Keeps.pure
  refine Prog.Keeps.bind (h.keeps (Quiet.ask trivial)) fun answer => ?_
  rcases answer with e | currentBlock
  · exact Prog.Keeps.pure
  refine Prog.Keeps.bind (h.keeps (Quiet.ask trivial)) fun answer => ?_
  rcases answer with e | _ | block
  · exact Prog.Keeps.pure
  · exact Prog.Keeps.pure
  have hfrom : Prog.Keeps P i J (cursor target) := fun s hI hJ =>
    wp_cursor (fun _ => ⟨hI, hcursor s hI hJ⟩) fun _ _ => ⟨hI, hJ⟩
  refine Prog.Keeps.bind hfrom fun fromBlock => Prog.Keeps.bind (htarget _ _) fun targetBlock => ?_
  refine Prog.Keeps.ite (fun _ => Prog.Keeps.bind (hcatchup _) fun _ => Prog.Keeps.pure) fun _ => ?_
  refine Prog.Keeps.bind Prog.Keeps.gets fun c => Prog.Keeps.ite (fun _ => ?_) fun _ => hchunk _ _
  exact Prog.Keeps.bind (hcatchup _) fun _ => hchunk _ _

/-- **The rule of the indexer's loop.** -/
lemma wp_run (h : Patient P i J)
    (hscan : ∀ target s, P.inv s → J s →
      (scanChain route target).wp P i (fun _ t => P.inv t ∧ J t) s)
    (hset : ∀ s, P.inv s → J s →
      (TaskStore.setOnSync true).wp P i (fun _ t => P.inv t ∧ J t) s)
    (n : ℕ) (hI : P.inv s) (hJ : J s) :
    (run route n).wp P i (fun _ t => P.inv t ∧ J t) s := by
  have hsleep : ∀ m, Prog.Keeps P i J (sleep m) := fun m => h.keeps Quiet.sleep
  have honce : Prog.Keeps P i J (scanOnce route) := by
    refine Prog.Keeps.bind (hscan .inbox) fun _ => ?_
    exact Prog.Keeps.bind (hscan .outbox) fun _ => Prog.Keeps.pure
  induction n generalizing s with
  | zero => exact ⟨hI, hJ⟩
  | succ n ih =>
    have hloop : Prog.Keeps P i J (run route n) := fun t hIt hJt => ih hIt hJt
    have hturn : Prog.Keeps P i J (run route (n + 1)) := by
      refine Prog.Keeps.bind honce fun done => Prog.Keeps.ite (fun _ => ?_) fun _ => ?_
      · refine Prog.Keeps.bind Prog.Keeps.gets fun onSync => ?_
        cases onSync with
        | true => exact Prog.Keeps.bind (hsleep _) fun _ => hloop
        | false =>
          exact Prog.Keeps.bind hset fun _ => Prog.Keeps.bind (hsleep _) fun _ => hloop
      · exact Prog.Keeps.bind (hsleep _) fun _ => hloop
    exact hturn s hI hJ

/-! ### An indexer that keeps what its handlers keep -/

lemma keeps_initializeIndexer (h : Patient P i J)
    (hoff : Prog.Keeps P i J (TaskStore.setOnSync false))
    (hsync : ∀ since a b, Prog.Keeps P i J (TaskStore.initializeSync since a b)) :
    Prog.Keeps P i J (initializeIndexer route) := by
  intro s hI hJ
  obtain ⟨hg, hd, hI', hJ'⟩ := hoff s hI hJ
  refine wp_initializeIndexer h (B := fun _ _ => True) ⟨hg, hd⟩ hI' hJ' (fun _ _ _ _ _ => trivial)
    (fun _ _ _ _ _ _ => trivial) (fun _ _ t hIt hJt => ⟨hIt, hJt⟩) fun now t _ hIt hJt => ?_
  have hsearch : ∀ provider since, Prog.Keeps P i J (findBlockByTimestamp provider since) :=
    fun provider since => h.keeps (quiet_findBlockByTimestamp provider since)
  refine Prog.Keeps.bind (hsearch .inbox _) (fun a => ?_) t hIt hJt
  exact Prog.Keeps.bind (hsearch .outbox _) fun b => hsync _ a b

lemma keeps_run (h : Patient P i J)
    (hcursor : ∀ target s, P.inv s → J s → P.fault i (.lastBlockNotSet target) s)
    (hcatchup : ∀ target f, Prog.Keeps P i J (modifyCatchup target f))
    (hblock : ∀ target a b logs, Prog.Keeps P i J (TaskStore.updateBlock target a b logs))
    (hset : Prog.Keeps P i J (TaskStore.setOnSync true))
    (hhandle : ∀ target log, Prog.Keeps P i J (handle route target log)) (n : ℕ) :
    Prog.Keeps P i J (run route n) := by
  intro s hI hJ
  refine wp_run h (fun target => ?_) hset n hI hJ
  exact keeps_scanChain h (hcursor target) (hcatchup target) (hblock target) (hhandle target)

end

end Indexer

end VeaValidator
