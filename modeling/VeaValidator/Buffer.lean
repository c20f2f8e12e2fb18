import VeaValidator.Catchup

/-!
The finality buffer.

The target of a catch-up is the first block that is not before the buffer, and it is the last block
of the last chunk. So a chunk that ends at its target takes in one block that is not older than the
buffer, unless the times happen to meet.
-/

namespace VeaValidator

open Coop

namespace Buffer

open Catchup

variable {route : Route} {chains : ScanTarget → Chain} {target : ScanTarget} {s t u v s₀ : World}
  {B : ScanTarget → ℕ}

/-- In some run of a call of `scan_chain` from `s` the log is handled. -/
def Handles (route : Route) (chains : ScanTarget → Chain) (target : ScanTarget) (s : World)
    (log : Log) : Prop :=
  ∃ u, (Indexer.scanAt route target (head target s)).Writes Others (Tells chains) s u
    (u.note (.handled target log))

/-- In some run of the call the log is fetched in the store `u`. -/
def Fetches (route : Route) (chains : ScanTarget → Chain) (target : ScanTarget) (s : World)
    (log : Log) (u : World) : Prop :=
  ∃ f logs, (Indexer.scanAt route target (head target s)).Hears Others (Tells chains) s
    (.logs (Indexer.provider target) f) (.ok logs) u ∧ log ∈ logs

/-- In some run of the call the log is dispatched: its handler comes to an end, or it is fetched
where its handler never does. -/
def Dispatches (route : Route) (chains : ScanTarget → Chain) (target : ScanTarget) (s : World)
    (log : Log) : Prop :=
  Handles route chains target s log ∨ ∃ u, Fetches route chains target s log u ∧
    ∀ v, ¬(Indexer.dispatch route target log).Runs Others (Tells chains) u (.ok ()) v

/-- When the chunk of a call reaches its target and there is a log in the target, the target is old
enough. -/
def Ripe (chains : ScanTarget → Chain) (target : ScanTarget) (s : World) : Prop :=
  ∀ fromBlock targetBlock, s.lastBlock target = some fromBlock →
    Uses chains target s targetBlock → fromBlock < targetBlock →
    targetBlock ≤ fromBlock + Indexer.chunkSize →
    (∃ log ∈ (chains target).logs, log.blockNumber = some targetBlock) →
    (chains target).ts targetBlock ≤ buffered (chains target).ts (head target s)

/-- Two targets of one call are the same, unless they are old enough anyway. -/
lemma uses_unique {r r' : ℕ} (h : Uses chains target s r) (h' : Uses chains target s r')
    (hpos : 0 < r) :
    (chains target).ts r ≤ buffered (chains target).ts (head target s) ∨ r = r' := by
  unfold Uses at h h'
  by_cases hs : Stale target s
  · rw [if_pos hs] at h h'
    rcases h with ⟨-, hr⟩ | h
    · left
      omega
    · right
      rcases h' with ⟨hhead, -⟩ | h'
      · have hzero : buffered (chains target).ts (head target s) = 0 := by
          rw [buffered, hhead, Nat.zero_sub]
        have hfirst : (chains target).ts 0 < buffered (chains target).ts (head target s) := h.2 0 hpos
        omega
      · exact h.unique h'
  · rw [if_neg hs] at h h'
    right
    omega

/-- The answers of a node that is up. -/
lemma tells_block (n : ℕ) : Tells chains (.blockByNumber (Indexer.provider target) (.number n))
    (.ok (some ⟨n, (chains target).ts n⟩)) s := by
  intro target' hp
  rw [Indexer.provider_injective hp]

lemma tells_latest : Tells chains (.blockByNumber (Indexer.provider target) .latest)
    (.ok (some ⟨head target s, (chains target).ts (head target s)⟩)) s := by
  intro target' hp
  rw [Indexer.provider_injective hp]
  exact ⟨rfl, rfl⟩

lemma tells_logs {f : Filter} {logs : List Log} (h : ∀ log, log ∈ logs ↔
    log ∈ (chains target).logs ∧ log.Within f.fromBlock f.toBlock) :
    Tells chains (.logs (Indexer.provider target) f) (.ok logs) s := by
  intro target' hp
  rw [Indexer.provider_injective hp]
  exact ⟨fun log hl => (h log).mp hl, fun _ log hl hw => (h log).mpr ⟨hl, hw⟩⟩

lemma runs_cursor {fromBlock : ℕ} (hcursor : s.lastBlock target = some fromBlock) :
    (Indexer.cursor target).Runs Others (Tells chains) s (.ok fromBlock) s := by
  unfold Indexer.cursor
  rw [Prog.runs_bind]
  refine .inl ⟨some fromBlock, s, ⟨congrArg Except.ok hcursor.symm, rfl⟩, ?_⟩
  exact ⟨rfl, rfl⟩

lemma runs_catchupTarget (chains : ScanTarget → Chain) (target : ScanTarget) (s : World)
    (now fromBlock : ℕ) : ∃ targetBlock t,
    (Indexer.catchupTarget target now fromBlock).Runs Others (Tells chains) s (.ok targetBlock)
      t := by
  obtain ⟨r, hr⟩ : ∃ r, (findBlockByTimestamp (Indexer.provider target)
      (now - Indexer.finalityBufferSecs)).Runs Others (Tells chains) s (.ok r) s :=
    runs_findBlockByTimestamp (.refl s) ⟨_, tells_latest⟩ (fun n => ⟨_, tells_block n⟩) _
  unfold Indexer.catchupTarget Indexer.catchup
  by_cases hs : (s.catchup target).target = 0 ∨ fromBlock ≥ (s.catchup target).target
  · refine ⟨r, s.setCatchup target { s.catchup target with target := r }, ?_⟩
    rw [Prog.runs_bind]
    refine .inl ⟨s.catchup target, s, ⟨rfl, rfl⟩, ?_⟩
    rw [if_pos hs, Prog.runs_bind]
    exact .inl ⟨r, s, hr, rfl, rfl⟩
  · refine ⟨(s.catchup target).target, s, ?_⟩
    rw [Prog.runs_bind]
    refine .inl ⟨s.catchup target, s, ⟨rfl, rfl⟩, ?_⟩
    rw [if_neg hs]
    exact ⟨rfl, rfl⟩

/-- When the node is up, a call gets as far as its chunk, or finds that there is none. -/
lemma runs_aim (chains : ScanTarget → Chain) {fromBlock : ℕ}
    (hcursor : s.lastBlock target = some fromBlock) :
    ∃ r t, (Indexer.aim target (head target s)).Runs Others (Tells chains) s (.ok r) t ∧
      r ≠ .inl false := by
  obtain ⟨targetBlock, t, htarget⟩ := runs_catchupTarget chains target s
    ((chains target).ts (head target s)) fromBlock
  obtain ⟨r, u, hu, hr⟩ : ∃ r u, ((if fromBlock ≥ targetBlock then do
      Indexer.modifyCatchup target fun _ => {}
      pure (.inl true)
    else do
      if (← Indexer.catchup target).start = 0 then
        Indexer.modifyCatchup target fun c => { c with start := fromBlock, lastLoggedPct := 0 }
      pure (.inr (fromBlock, targetBlock))) : M (Bool ⊕ ℕ × ℕ)).Runs Others (Tells chains) t (.ok r) u ∧
        r ≠ .inl false := by
    by_cases hle : fromBlock ≥ targetBlock
    · rw [if_pos hle]
      exact ⟨.inl true, _, ⟨rfl, rfl⟩, by simp⟩
    · rw [if_neg hle]
      by_cases hstart : (t.catchup target).start = 0
      · refine ⟨.inr (fromBlock, targetBlock), t.setCatchup target
          { t.catchup target with start := fromBlock, lastLoggedPct := 0 }, ?_, by simp⟩
        rw [Indexer.catchup, Prog.runs_bind]
        refine .inl ⟨t.catchup target, t, ⟨rfl, rfl⟩, ?_⟩
        simp only [hstart, if_true]
        exact ⟨rfl, rfl⟩
      · refine ⟨.inr (fromBlock, targetBlock), t, ?_, by simp⟩
        rw [Indexer.catchup, Prog.runs_bind]
        refine .inl ⟨t.catchup target, t, ⟨rfl, rfl⟩, ?_⟩
        simp only [hstart, if_false]
        exact ⟨rfl, rfl⟩
  refine ⟨r, u, ?_, hr⟩
  unfold Indexer.aim
  refine Prog.runs_bind.mpr (.inl ⟨.ok (some ⟨head target s, (chains target).ts (head target s)⟩), s,
    ⟨s, .refl s, _, tells_block _, rfl, rfl⟩, ?_⟩)
  refine Prog.runs_bind.mpr (.inl ⟨fromBlock, s, runs_cursor hcursor, ?_⟩)
  exact Prog.runs_bind.mpr (.inl ⟨targetBlock, t, htarget, hu⟩)

/-! ### The logs of a chunk -/

/-- Before its chunk a call asks for no logs, and logs nothing. -/
lemma logless_aim (target : ScanTarget) (n : ℕ) : Logless (Indexer.aim target n) := by
  refine Prog.Asks.bind (Prog.Asks.ask nofun) fun answer => ?_
  rcases answer with e | _ | block
  · exact Prog.Asks.pure
  · exact Prog.Asks.pure
  have hcursor : Logless (Indexer.cursor target) := by
    refine Prog.Asks.bind Prog.Asks.gets fun block => ?_
    cases block with
    | some block => exact Prog.Asks.pure
    | none => exact Prog.Asks.panic
  refine Prog.Asks.bind hcursor fun fromBlock => ?_
  refine Prog.Asks.bind (Logless.catchupTarget target _ fromBlock) fun targetBlock => ?_
  refine Prog.Asks.ite (Prog.Asks.bind Prog.Asks.modify fun _ => Prog.Asks.pure) ?_
  refine Prog.Asks.bind Prog.Asks.gets fun c => Prog.Asks.ite ?_ Prog.Asks.pure
  exact Prog.Asks.bind Prog.Asks.modify fun _ => Prog.Asks.pure

lemma log_aim {n : ℕ} (h : (Indexer.aim target n).Writes Others (Tells chains) s u v) :
    v.log = u.log := by
  let P : Protocol Unit World Panic Query.Answer :=
    .loose (fun s t => t.log = s.log) (fun _ _ => True) fun _ _ => True
  have hp : Patient P () fun _ => True :=
    ⟨fun _ _ _ _ _ => trivial, fun _ _ _ _ _ => trivial, fun _ _ _ _ _ => trivial⟩
  have hcatchup : ∀ f, Prog.Keeps P () (fun _ => True) (Indexer.modifyCatchup target f) :=
    fun f w _ _ => ⟨by cases target <;> rfl, trivial, trivial, trivial⟩
  have haim : Prog.Keeps P () (fun _ => True) (Indexer.aim target n) := by
    refine Prog.Keeps.bind (hp.keeps (Quiet.ask trivial)) fun answer => ?_
    rcases answer with e | _ | block
    · exact Prog.Keeps.pure
    · exact Prog.Keeps.pure
    refine Prog.Keeps.bind (fun w _ _ => Indexer.wp_cursor (fun _ => ⟨trivial, trivial⟩)
      fun _ _ => ⟨trivial, trivial⟩) fun fromBlock => Prog.Keeps.bind ?_ fun targetBlock => ?_
    · refine Prog.Keeps.bind Prog.Keeps.gets fun c => Prog.Keeps.ite (fun _ => ?_)
        fun _ => Prog.Keeps.pure
      refine Prog.Keeps.bind (hp.keeps (quiet_findBlockByTimestamp _ _)) fun b => ?_
      exact Prog.Keeps.bind (hcatchup _) fun _ => Prog.Keeps.pure
    · refine Prog.Keeps.ite (fun _ => Prog.Keeps.bind (hcatchup _) fun _ => Prog.Keeps.pure) fun _ => ?_
      refine Prog.Keeps.bind Prog.Keeps.gets fun c => Prog.Keeps.ite (fun _ => ?_)
        fun _ => Prog.Keeps.pure
      exact Prog.Keeps.bind (hcatchup _) fun _ => Prog.Keeps.pure
  exact h.of_loose haim

/-- Only the end of its handler says that a log is handled. -/
lemma handled_write {logs : List Log} {log : Log}
    (h : (forM logs (Indexer.handle route target)).Writes Others (Tells chains) s u
      (u.note (.handled target log))) : log ∈ logs := by
  obtain ⟨log', hl, t, h⟩ := Prog.writes_forM h
  rcases Prog.writes_bind.mp h with hdispatch | ⟨⟨⟩, w, -, hend⟩
  · have hchange : Change u (u.note (.handled target log)) :=
      hdispatch.of_loose (changing_dispatch target log')
    rcases hchange.log with hlog | ⟨o, ho, hlog⟩
    · exact absurd hlog (List.cons_ne_self _ _)
    · obtain ⟨rfl, -⟩ := List.cons.inj hlog
      exact ho.elim
  · rcases hend with ⟨rfl, hnote⟩ | hnone
    · have hlog := congrArg World.log hnote
      obtain ⟨hsame, -⟩ := List.cons.inj hlog
      cases hsame
      exact hl
    · exact hnone.elim

/-- What a chunk handles it has fetched. -/
lemma handled_scanChunk {fromBlock targetBlock : ℕ} {log : Log}
    (h : (Indexer.scanChunk route target fromBlock targetBlock).Writes Others (Tells chains) s u
      (u.note (.handled target log))) :
    ∃ t logs, Tells chains (.logs (Indexer.provider target) (Indexer.chunkFilter route target
      fromBlock (min (fromBlock + Indexer.chunkSize) targetBlock))) (.ok logs) t ∧ log ∈ logs := by
  rw [Indexer.scanChunk] at h
  obtain ⟨t, -, answer, htells, h⟩ := Prog.writes_ask_bind.mp h
  rcases answer with e | logs
  · exact h.elim
  refine ⟨t, logs, htells, ?_⟩
  rcases Prog.writes_bind.mp h with h | ⟨⟨⟩, w, -, h⟩
  · exact handled_write h
  · rcases h with ⟨rfl, hblock⟩ | ⟨rfl, hcatchup⟩ | hnone
    · have hlog := congrArg World.log hblock
      rw [World.log_updateBlock] at hlog
      obtain ⟨hsame, -⟩ := List.cons.inj hlog
      cases hsame
    · have hlog := congrArg World.log hcatchup
      rw [World.log_setCatchup] at hlog
      exact absurd hlog (List.cons_ne_self _ _)
    · exact hnone.elim

/-- A chunk asks for logs once. -/
lemma hears_scanChunk {fromBlock targetBlock : ℕ} {f : Filter} {logs : List Log}
    (h : (Indexer.scanChunk route target fromBlock targetBlock).Hears Others (Tells chains) s
      (.logs (Indexer.provider target) f) (.ok logs) u) :
    Tells chains (.logs (Indexer.provider target) (Indexer.chunkFilter route target
      fromBlock (min (fromBlock + Indexer.chunkSize) targetBlock))) (.ok logs) u := by
  rw [Indexer.scanChunk] at h
  obtain ⟨t, -, answer, htells, ⟨heq, rfl⟩ | h⟩ := Prog.hears_ask_bind.mp h
  · cases heq
    exact htells
  rcases answer with e | logs'
  · exact h.elim
  have hforM : ∀ l : List Log, Logless (forM l (Indexer.handle route target)) := by
    intro l
    induction l with
    | nil => exact Prog.Asks.pure
    | cons log l ih =>
      rw [List.forM_cons]
      exact Prog.Asks.bind (Prog.Asks.bind (Logless.dispatch target log) fun _ => Prog.Asks.modify)
        fun _ => ih
  have hrest : Logless (do
      forM logs' (Indexer.handle route target)
      TaskStore.updateBlock target fromBlock (min (fromBlock + Indexer.chunkSize) targetBlock) logs'
      Indexer.modifyCatchup target
        (Indexer.finishChunk (min (fromBlock + Indexer.chunkSize) targetBlock) targetBlock)
      pure (decide (min (fromBlock + Indexer.chunkSize) targetBlock ≥ targetBlock))) :=
    Prog.Asks.bind (hforM logs') fun _ => Prog.Asks.bind Prog.Asks.modify fun _ =>
      Prog.Asks.bind Prog.Asks.modify fun _ => Prog.Asks.pure
  exact absurd rfl (hrest.hears h _ _)

/-- What a call dispatches it has fetched with the filter of its chunk. -/
lemma Dispatches.fetched {log : Log} (h : Dispatches route chains target s log) :
    ∃ fromBlock targetBlock t u logs,
      (Indexer.aim target (head target s)).Runs Others (Tells chains) s
        (.ok (.inr (fromBlock, targetBlock))) t ∧
      Tells chains (.logs (Indexer.provider target) (Indexer.chunkFilter route target fromBlock
        (min (fromBlock + Indexer.chunkSize) targetBlock))) (.ok logs) u ∧ log ∈ logs := by
  rcases h with ⟨u, hwrite⟩ | ⟨u, ⟨f, logs, hhears, hl⟩, -⟩
  · rcases Prog.writes_bind.mp hwrite with haim | ⟨r, t, haim, hchunk⟩
    · exact absurd (log_aim haim) (List.cons_ne_self _ _)
    rcases r with done | ⟨fromBlock, targetBlock⟩
    · exact hchunk.elim
    · obtain ⟨w, logs, htells, hl⟩ := handled_scanChunk hchunk
      exact ⟨fromBlock, targetBlock, t, w, logs, haim, htells, hl⟩
  · rcases Prog.hears_bind.mp hhears with haim | ⟨r, t, haim, hchunk⟩
    · exact absurd rfl ((logless_aim _ _).hears haim _ _)
    rcases r with done | ⟨fromBlock, targetBlock⟩
    · exact hchunk.elim
    · exact ⟨fromBlock, targetBlock, t, u, logs, haim, hears_scanChunk hchunk, hl⟩

/-- The first of the logs that are fetched is dispatched. -/
lemma dispatches_head {fromBlock targetBlock : ℕ} {log : Log} {logs : List Log}
    (haim : (Indexer.aim target (head target s)).Runs Others (Tells chains) s
      (.ok (.inr (fromBlock, targetBlock))) t)
    (htells : Tells chains (.logs (Indexer.provider target) (Indexer.chunkFilter route target
      fromBlock (min (fromBlock + Indexer.chunkSize) targetBlock))) (.ok (log :: logs)) t) :
    Dispatches route chains target s log := by
  by_cases hend : ∃ v, (Indexer.dispatch route target log).Runs Others (Tells chains) t (.ok ()) v
  · obtain ⟨v, hdispatch⟩ := hend
    refine .inl ⟨v, Prog.writes_bind.mpr (.inr ⟨_, t, haim, ?_⟩)⟩
    refine Prog.writes_ask_bind.mpr ⟨t, .refl t, .ok (log :: logs), htells, ?_⟩
    have hhandle : (Indexer.handle route target log).Writes Others (Tells chains) t v
        (v.note (.handled target log)) :=
      Prog.writes_bind.mpr (.inr ⟨(), v, hdispatch, .inl ⟨rfl, rfl⟩⟩)
    refine Prog.writes_bind.mpr (.inl ?_)
    rw [List.forM_cons]
    exact Prog.writes_bind.mpr (.inl hhandle)
  · have hhears : (Indexer.scanChunk route target fromBlock targetBlock).Hears Others (Tells chains) t
        (.logs (Indexer.provider target) (Indexer.chunkFilter route target fromBlock
          (min (fromBlock + Indexer.chunkSize) targetBlock))) (.ok (log :: logs)) t :=
      Prog.hears_ask_bind.mpr ⟨t, .refl t, .ok (log :: logs), htells, .inl ⟨rfl, rfl⟩⟩
    have hfetched : Fetches route chains target s log t :=
      ⟨_, log :: logs, Prog.hears_bind.mpr (.inr ⟨_, t, haim, hhears⟩), List.mem_cons_self⟩
    exact .inr ⟨t, hfetched, fun v hv => hend ⟨v, hv⟩⟩

/-- **The finality buffer.** In any session, the logs that a call of `scan_chain` can dispatch are
all older than the buffer at the head it has read, if and only if its target is ripe. -/
theorem buffer_kept_iff (route : Route) {chains : ScanTarget → Chain}
    (hmono : ∀ target, Monotone (chains target).ts) {s₀ s : World} {B : ScanTarget → ℕ}
    (h : Session route chains s₀ B s) (target : ScanTarget) :
    (∀ log, Dispatches route chains target s log → ∃ n, log.blockNumber = some n ∧
      (chains target).ts n ≤
        (chains target).ts (head target s) - Indexer.finalityBufferSecs) ↔
    Ripe chains target s := by
  have hgood := h.good hmono target
  constructor
  · intro hold fromBlock targetBlock hcursor huses hlt hle hlog
    obtain ⟨log, hl, hn⟩ := hlog
    obtain ⟨r, t, hrun, hr⟩ := runs_aim chains hcursor
    have haim := (Prog.wp_runs_disturbed (wp_aim (hmono target)) hrun).1 r rfl
    rcases r with (_ | _) | ⟨fromBlock', r⟩
    · exact absurd rfl hr
    · obtain ⟨c, r, huses', hdone, hc, -⟩ := haim
      obtain rfl : fromBlock = c := Option.some.inj (hcursor.symm.trans hc)
      rcases uses_unique huses huses' (by omega) with hold' | rfl
      · exact hold'
      · omega
    · obtain ⟨huses', hlt', hc, -⟩ := haim
      obtain rfl : fromBlock = fromBlock' := Option.some.inj (hcursor.symm.trans hc)
      rcases uses_unique huses huses' (by omega) with hold' | rfl
      · exact hold'
      · -- The node may name the log in the target first.
        let f := Indexer.chunkFilter route target fromBlock
          (min (fromBlock + Indexer.chunkSize) targetBlock)
        let logs := (chains target).logs.filter fun log => log.Within f.fromBlock f.toBlock
        have hmem : log ∈ logs := by
          refine List.mem_filter.mpr ⟨hl, decide_eq_true ⟨targetBlock, hn, hlt.le, ?_⟩⟩
          exact le_min hle le_rfl
        have htells : Tells chains (.logs (Indexer.provider target) f)
            (.ok (log :: logs.erase log)) t := by
          refine tells_logs fun log' => ?_
          rw [← (List.perm_cons_erase hmem).mem_iff, List.mem_filter, decide_eq_true_eq]
        obtain ⟨n, hn', hold'⟩ := hold log (dispatches_head hrun htells)
        obtain rfl : targetBlock = n := Option.some.inj (hn.symm.trans hn')
        exact hold'
  · rintro hripe log hdispatches
    obtain ⟨fromBlock, r, t, u, logs, hrun, htells, hl⟩ := hdispatches.fetched
    obtain ⟨huses, hlt, hcursor, -, -⟩ := (Prog.wp_runs_disturbed (wp_aim (hmono target)) hrun).1 _ rfl
    obtain ⟨hmem, n, hn, hge, hle⟩ := (htells target rfl).1 log hl
    have hchunk : n ≤ fromBlock + Indexer.chunkSize ∧ n ≤ r := le_min_iff.mp hle
    refine ⟨n, hn, ?_⟩
    rcases Nat.lt_or_eq_of_le hchunk.2 with hbelow | rfl
    · have haim := hgood.aimed (hmono target) huses
      calc (chains target).ts n
          ≤ buffered (chains target).ts (basis target s (B target)) := haim.below n hbelow
        _ ≤ buffered (chains target).ts (head target s) :=
            Nat.sub_le_sub_right (hmono target hgood.basis_le) _
    · exact hripe fromBlock n hcursor huses hlt hchunk.1 ⟨log, hmem, hn⟩

lemma ripe_behind : Ripe Catchup.sampleChains .outbox behind := by
  intro fromBlock targetBlock hcursor huses _ _ hlog
  obtain ⟨log, hl, hn⟩ := hlog
  have hstale : Stale .outbox behind := by decide
  rw [Uses, if_pos hstale] at huses
  obtain ⟨hhead, -⟩ | ⟨hat, hbelow⟩ := huses
  · exact absurd hhead (by decide)
  · rcases List.mem_pair.mp hl with rfl | rfl
    · obtain rfl : 5 = targetBlock := Option.some.inj hn
      exact absurd hat (by decide)
    · obtain rfl : 500 = targetBlock := Option.some.inj hn
      exact absurd (hbelow 10 (by decide)) (by decide)

theorem buffer_kept_iff_sample : Ripe Catchup.sampleChains .outbox behind ∧
    ∀ log, Dispatches Sample.route Catchup.sampleChains .outbox behind log →
      ∃ n, log.blockNumber = some n ∧ (Catchup.sampleChains .outbox).ts n ≤
        (Catchup.sampleChains .outbox).ts (head .outbox behind) - Indexer.finalityBufferSecs := by
  have hboot : Session Sample.route Catchup.sampleChains behind (fun _ => 0) behind :=
    .boot (by rintro (_ | _) <;> decide) (by rintro (_ | _) <;> rfl)
  exact ⟨ripe_behind,
    (buffer_kept_iff Sample.route Catchup.monotone_sampleChains hboot .outbox).mpr ripe_behind⟩

/-- A claim in block 829. -/
def youngClaim : Log := { Sample.claimed 5 1 829 with blockTimestamp := some (7 * 829) }

/-- Block `n` is at time `7 n`. -/
def youngChains : ScanTarget → Chain
  | .inbox => ⟨(7 * ·), []⟩
  | .outbox => ⟨(7 * ·), [youngClaim]⟩

def youngNode : (q : Query) → q.Answer
  | .blockByNumber _ .latest => .ok (some ⟨1000, 7 * 1000⟩)
  | .blockByNumber _ (.number n) => .ok (some ⟨n, 7 * n⟩)
  | .logs .outbox f =>
    .ok ((youngChains .outbox).logs.filter fun log => log.Within f.fromBlock f.toBlock)
  | _ => .error "connection refused"

lemma tells_youngNode (hs : s.heads = ⟨1000, 1000, 1000⟩) (q : Query) :
    Tells youngChains q (youngNode q) s := by
  cases q with
  | blockByNumber p n =>
    cases n with
    | finalized => trivial
    | latest =>
      intro target _
      refine ⟨?_, by cases target <;> rfl⟩
      rw [hs]
      cases p <;> rfl
    | number n =>
      intro target _
      cases target <;> rfl
  | logs p f =>
    cases p with
    | outbox =>
      show Tells youngChains (.logs (Indexer.provider .outbox) f) _ s
      refine tells_logs fun log => ?_
      rw [List.mem_filter, decide_eq_true_eq]
    | inbox => trivial
    | ethereum => trivial
  | _ => trivial

/-- The head is at 7000 seconds. -/
def young : World where
  schedule := { inboxLastBlock := some 0, outboxLastBlock := some 0 }
  heads := ⟨1000, 1000, 1000⟩

/-- The first block that is not before 5800 is at 5803, and the claim in it is handled. -/
theorem target_young : (∀ target, Monotone (youngChains target).ts) ∧
    Session Sample.route youngChains young (fun _ => 0) young ∧
    (∃ t, (Indexer.scanAt Sample.route .outbox (head .outbox young)).Runs Others (Tells youngChains)
      young (.ok true) t ∧ .handled .outbox youngClaim ∈ t.log) ∧
    .handled .outbox youngClaim ∉ young.log ∧ youngClaim.blockNumber = some 829 ∧
    (youngChains .outbox).ts (head .outbox young) - Indexer.finalityBufferSecs <
      (youngChains .outbox).ts 829 := by
  have hmono : ∀ target, Monotone (youngChains target).ts := by
    rintro (_ | _) <;> exact fun _ _ h => Nat.mul_le_mul_left 7 h
  have hboot : Session Sample.route youngChains young (fun _ => 0) young :=
    .boot (by rintro (_ | _) <;> decide) (by rintro (_ | _) <;> rfl)
  have hrun := Prog.runs_eval_visits (o := youngNode) (p := fun w => w.heads = ⟨1000, 1000, 1000⟩)
    Others.refl (fun q w hw => tells_youngNode (of_decide_eq_true hw) q)
    (x := Indexer.scanAt Sample.route .outbox 1000) (s := young) (by decide +kernel)
  have htrue : ((Indexer.scanAt Sample.route .outbox 1000).eval youngNode young).1 = .ok true := by
    decide +kernel
  rw [htrue] at hrun
  exact ⟨hmono, hboot, ⟨_, hrun, by decide +kernel⟩, by decide, rfl, by decide⟩

end Buffer

end VeaValidator
