import VeaValidator.Coop.Beside
import VeaValidator.Coop.Stages
import VeaValidator.Coverage
import VeaValidator.EpochWatcher

/-!
A route as `main.rs` runs it.

`run_route` asks for the epoch period and initialises the indexer; only then it runs the watcher of
the epochs, the indexer and the dispatcher side by side, the branches of one `select!`. When one of
them panics, `run_route_with_retry` waits for five minutes and runs the route again on what its files
hold. The process may also be stopped at any write and started again.
-/

namespace VeaValidator

open Coop

/-- The programs of a route: the two that write its files, and the watcher of the epochs. -/
abbrev Thread := Role ⊕ Unit

namespace Main

def retryDelaySecs : ℕ := 5 * 60

/-- `run_route` up to its `select!`. -/
def startRoute (route : Route) : M ℕ := do
  let answer ← Prog.ask (A := Query.Answer) .epochPeriod
  let epochPeriod ← expectOk "Failed to get epochPeriod" answer
  if epochPeriod < 2 ^ 64 then do
    Indexer.initializeIndexer route
    pure epochPeriod
  else
    .panic (.expect "epochPeriod overflow")

/-- The same after a panic, in the loop of `run_route_with_retry`. -/
def retryRoute (route : Route) : M ℕ := do
  sleep retryDelaySecs
  startRoute route

/-- The branches of the `select!`. -/
def branch (route : Route) (makeClaims : Bool) (epochPeriod : ℕ) : Thread → M Unit → Prop
  | .inl .indexer, p => ∃ n, p = Indexer.run route n
  | .inl .dispatcher, p => ∃ n, p = Dispatcher.run route n
  | .inr (), p => ∃ n, p = EpochWatcher.watchEpochs route makeClaims epochPeriod n {}

/-- The nodes answer the two writers as `answer` says, and the watcher with anything. -/
def answers (answer : Role → (q : Query) → q.Answer → World → Prop) :
    Thread → (q : Query) → q.Answer → World → Prop
  | .inl i => answer i
  | .inr () => fun _ _ _ => True

/-- `run_route_with_retry` -/
@[simps]
def routeSystem (route : Route) (makeClaims : Bool) (init : World → Prop)
    (answer : Role → (q : Query) → q.Answer → World → Prop) (restart : World → World → Prop) :
    Staged Thread World Panic Query.Answer ℕ where
  init
  prelude := startRoute route
  retry := retryRoute route
  boot := branch route makeClaims
  lead := .inl .indexer
  answer := answers answer
  env := Grown
  restart

variable {route : Route} {makeClaims : Bool} {init : World → Prop}
  {answer : Role → (q : Query) → q.Answer → World → Prop} {restart : World → World → Prop}

lemma waits : (routeSystem route makeClaims init answer restart).Waits where
  exists_boot b i := by
    rcases i with (_ | _) | _
    · exact ⟨_, 0, rfl⟩
    · exact ⟨_, 0, rfl⟩
    · exact ⟨_, 0, rfl⟩
  stopped b p hp := by
    obtain ⟨n, rfl⟩ := hp
    cases n with
    | zero => trivial
    | succ n => trivial
  alive b i p e hp := by
    rcases i with (_ | _) | _
    all_goals
      obtain ⟨n, rfl⟩ := hp
      cases n <;> nofun

/-! ### The watcher as a guest -/

/-- The rules of a program that leaves lines of the watcher and nothing else. -/
abbrev watching : Protocol Unit World Panic Query.Answer :=
  .loose (fun s t => ∃ line, t = s.note (.watch line)) (fun _ _ => True) fun _ _ => True

abbrev Watching {α : Type} (p : M α) : Prop := Prog.Keeps watching () (fun _ => True) p

lemma patient_watching : Patient watching () fun _ => True where
  rely _ _ _ _ _ := trivial
  issue _ _ _ _ _ := trivial
  fault _ _ _ _ _ := trivial

lemma watching_info (line : Watch) : Watching (info (.watch line)) := fun _ _ _ =>
  ⟨⟨line, rfl⟩, trivial, trivial, trivial⟩

lemma watching_panic {α : Type} (e : Panic) : Watching (.panic e : M α) :=
  Prog.Keeps.panic fun _ _ _ => trivial

lemma watching_saveBeforeEpoch (epochPeriod now : ℕ) (m : EpochWatcher.Memory) :
    Watching (EpochWatcher.saveBeforeEpoch epochPeriod now m) := by
  refine Prog.Keeps.bind Prog.Keeps.gets fun onSync => Prog.Keeps.ite (fun _ => ?_) fun _ => Prog.Keeps.pure
  refine Prog.Keeps.bind (watching_info _) fun _ => ?_
  refine Prog.Keeps.bind (Tasks.keeps_saveSnapshot patient_watching fun _ _ _ => trivial) fun result => ?_
  cases result with
  | ok _ => exact Prog.Keeps.pure
  | error e => exact watching_panic _

lemma watching_claimAfterEpoch (epochPeriod now : ℕ) (m : EpochWatcher.Memory) :
    Watching (EpochWatcher.claimAfterEpoch route makeClaims epochPeriod now m) := by
  refine Prog.Keeps.bind Prog.Keeps.gets fun onSync => Prog.Keeps.ite (fun _ => ?_) fun _ => Prog.Keeps.pure
  refine Prog.Keeps.ite (fun _ => ?_) fun _ => Prog.Keeps.pure
  refine Prog.Keeps.ite (fun _ => ?_) fun _ => Prog.Keeps.pure
  refine Prog.Keeps.bind (watching_info _) fun _ => ?_
  refine Prog.Keeps.bind (Tasks.keeps_claim patient_watching fun _ _ _ _ _ => trivial) fun result => ?_
  refine Prog.Keeps.bind (watching_info _) fun _ => ?_
  cases result with
  | ok _ => exact Prog.Keeps.pure
  | error e =>
    refine Prog.Keeps.ite (fun _ => Prog.Keeps.pure) fun _ => ?_
    exact Prog.Keeps.ite (fun _ => Prog.Keeps.pure) fun _ => watching_panic _

/-- **The watcher only leaves its lines.** -/
lemma watching_watchEpochs (epochPeriod n : ℕ) (m : EpochWatcher.Memory) :
    Watching (EpochWatcher.watchEpochs route makeClaims epochPeriod n m) := by
  have hsleep : ∀ m : EpochWatcher.Memory, Watching (do sleep 10; pure m) := fun m =>
    Prog.Keeps.bind (patient_watching.keeps Quiet.sleep) fun _ => Prog.Keeps.pure
  have hturn : ∀ m, Watching (EpochWatcher.watchTurn route makeClaims epochPeriod m) := by
    intro m
    have hnow : Watching EpochWatcher.getCurrentTimestamp.run := by
      refine Prog.Keeps.run_bind (patient_watching.rpc trivial) fun block => ?_
      cases block with
      | some block => exact Prog.Keeps.run_pure
      | none => exact Prog.Keeps.run_lift (watching_panic _)
    refine Prog.Keeps.bind hnow fun answer => ?_
    cases answer with
    | error e => exact hsleep m
    | ok now =>
      refine Prog.Keeps.ite (fun _ => watching_panic _) fun _ => ?_
      refine Prog.Keeps.bind (watching_info _) fun _ => ?_
      refine Prog.Keeps.bind (watching_saveBeforeEpoch _ _ _) fun m => ?_
      exact Prog.Keeps.bind (watching_claimAfterEpoch _ _ _) fun m => hsleep m
  induction n generalizing m with
  | zero => exact Prog.Keeps.pure
  | succ n ih => exact Prog.Keeps.bind (hturn m) fun m' => ih m'

/-- The lines of the watcher are nothing to the two writers. -/
structure Tolerates (P : Protocol Role World Panic Query.Answer) : Prop where
  kept : ∀ s line, P.inv s → P.durable (s.note (.watch line)) ∧ P.inv (s.note (.watch line))
  unseen : ∀ i s line, P.rely i s (s.note (.watch line))
  patient : Patient P .indexer fun _ => True

/-- The wait after a panic and the epoch period come before the initialisation. -/
lemma wp_startRoute {ι : Type} {P : Protocol ι World Panic Query.Answer} {i : ι} {s : World}
    (hp : Patient P i fun _ => True) (hrefl : ∀ s, P.rely i s s)
    (htrans : ∀ s t u, P.rely i s t → P.rely i t u → P.rely i s u) {R : ℕ → World → Prop}
    (hI : P.inv s)
    (hstart : ∀ b t, b < 2 ^ 64 → P.rely i s t → P.inv t →
      (Indexer.initializeIndexer route).wp P i (fun _ => R b) t) {pre : M ℕ}
    (hpre : pre = startRoute route ∨ pre = retryRoute route) : pre.wp P i R s := by
  have hroute : ∀ t, P.rely i s t → P.inv t → (startRoute route).wp P i R t := by
    intro t hst hIt
    rw [startRoute, Prog.wp_bind, Prog.wp_ask]
    refine ⟨hIt, hp.issue _ t trivial hIt trivial, fun u htu hIu a _ => ?_⟩
    rw [Prog.wp_bind, wp_expectOk]
    refine ⟨fun _ _ => ⟨hIu, hp.fault _ u trivial hIu trivial⟩, fun epochPeriod _ => ?_⟩
    rw [Prog.wp_ite]
    refine ⟨fun hlt => ?_, fun _ => ⟨hIu, hp.fault _ u trivial hIu trivial⟩⟩
    rw [Prog.wp_bind]
    exact hstart epochPeriod u hlt (htrans s t u hst htu) hIu
  rcases hpre with rfl | rfl
  · exact hroute s (hrefl s) hI
  · rw [retryRoute, Prog.wp_bind, wp_sleep]
    exact ⟨hI, hp.issue _ s trivial hI trivial, fun t hst hIt _ _ => hroute t hst hIt⟩

/-- A protocol of the two writers that tolerates the watcher covers the route. -/
lemma covers_flat {P : Protocol Role World Panic Query.Answer}
    (hP : P.Covers (scanSystem route (Indexer.initializeIndexer route) init answer restart))
    (htol : Tolerates P) :
    (P.beside watching).Covers (routeSystem route makeClaims init answer restart).flat := by
  refine hP.beside (N := watching) ⟨fun _ _ => trivial, ?_, ?_⟩ (fun _ _ => trivial)
    (fun _ _ _ _ _ _ => trivial) (fun _ _ _ _ _ _ => trivial) (fun _ _ _ _ _ => trivial)
    (fun _ h => h) (fun _ _ h => h) (fun _ _ _ _ => trivial) (fun _ _ h => h)
    (fun _ _ _ _ h => h) (fun _ _ _ _ _ => trivial) (fun i p s t hp hs hst hI => ?_)
    fun k p t hp _ => ?_
  · rintro _ s t ⟨line, rfl⟩ hI
    exact htol.kept s line hI
  · rintro _ i s t ⟨line, rfl⟩
    exact htol.unseen i s line
  · cases i with
    | indexer =>
      obtain ⟨pre, f, hpre, hf, rfl⟩ := Staged.flat_boot_lead.mp hp
      rw [Prog.wp_bind]
      refine wp_startRoute htol.patient (hP.rely_refl _) (hP.rely_trans _) hI
        (fun b u _ htu hIu => ?_) hpre
      obtain ⟨n, hn⟩ := hf b
      have hw := hP.boot .indexer _ s u ⟨n, rfl⟩ hs (hP.rely_trans _ _ _ _ hst htu) hIu
      rw [Prog.wp_bind] at hw
      rw [hn]
      exact hw
    | dispatcher =>
      obtain ⟨b, n, rfl⟩ := (Staged.flat_boot_other (by simp)).mp hp
      exact hP.boot .dispatcher _ s t ⟨n, rfl⟩ hs hst hI
  · obtain ⟨b, n, rfl⟩ := (Staged.flat_boot_other (by simp)).mp hp
    exact Prog.wp_mono (fun _ _ _ => trivial) (watching_watchEpochs b n {} t trivial trivial)

/-- What is known of the two writers on their own holds in the route, in every stage. -/
lemma invariant_of_covers {P : Protocol Role World Panic Query.Answer}
    (hP : P.Covers (scanSystem route (Indexer.initializeIndexer route) init answer restart))
    (htol : Tolerates P) {c : Staged.Config Thread World Panic Query.Answer ℕ}
    (hc : (routeSystem route makeClaims init answer restart).Reachable c) :
    P.inv c.store ∧ ∀ th i e, c.stage = .running th → th (.inl i) = .panic e →
      ∃ s, P.inv s ∧ P.fault i e s := by
  have hflat := hc.flattened waits
  have hcovers : (P.beside watching).Covers (routeSystem route makeClaims init answer restart).flat :=
    covers_flat hP htol
  obtain ⟨th, hreach⟩ := hflat.exists_reachable waits
  refine ⟨(hcovers.reachable hreach).inv, fun th i e hth he => ?_⟩
  obtain ⟨s, stage⟩ := c
  obtain rfl : stage = _ := hth
  exact (hcovers.reachable hflat).fault (.inl i) e he

/-- And what a writer may ask only under a condition it asks only then. -/
lemma issue_of_covers {P : Protocol Role World Panic Query.Answer}
    (hP : P.Covers (scanSystem route (Indexer.initializeIndexer route) init answer restart))
    (htol : Tolerates P)
    (hstay : ∀ i q s t, P.issue i q s → P.rely i s t → P.inv t → P.issue i q t)
    {c : Staged.Config Thread World Panic Query.Answer ℕ}
    (hc : (routeSystem route makeClaims init answer restart).Reachable c)
    {th : Thread → M Unit} (hth : c.stage = .running th) {i : Role} {q : Query}
    (hq : (th (.inl i)).query? = some q) : P.issue i q c.store := by
  have hflat := hc.flattened waits
  have hcovers : (P.beside watching).Covers (routeSystem route makeClaims init answer restart).flat :=
    covers_flat hP htol
  obtain ⟨s, stage⟩ := c
  obtain rfl : stage = _ := hth
  obtain ⟨k, hk⟩ := Prog.exists_of_query? hq
  refine hcovers.pending (fun j q' s t hs hst hI => ?_) hflat (i := .inl i) hk
  rcases j with j | _
  · exact hstay j q' s t hs hst hI
  · trivial

/-! ### The logs of a whole route -/

lemma tolerates_coverage (route : Route) (chains : ScanTarget → Chain) :
    Tolerates (Coverage.protocol route chains) where
  kept s line hI :=
    have hkept := Coverage.inv_frame hI (Coverage.frame_note s (o := .watch line) trivial)
    ⟨hkept, hkept⟩
  unseen i s line := by
    cases i with
    | indexer => exact (Coverage.frame_note s (o := .watch line) trivial).others
    | dispatcher => trivial
  patient := Coverage.patient fun _ _ _ _ => trivial

/-- **A route loses no log.** Whatever the watcher and the dispatcher do besides, whenever a program
panics and the route is run again, and wherever the process is stopped: a route that has synced has
its cursors and never misses them, and every log in a block that has been scanned since then has been
handled. -/
theorem route_loses_no_log (route : Route) (makeClaims : Bool) {chains : ScanTarget → Chain}
    (hmono : ∀ target, Monotone (chains target).ts)
    {c : Staged.Config Thread World Panic Query.Answer ℕ}
    (hc : (routeSystem route makeClaims Coverage.Fresh (Coverage.Faithful route chains)
      Restarted).Reachable c) (target : ScanTarget) :
    ((∃ since a b, .initializedSync since a b ∈ c.store.log) →
      c.store.lastBlock target ≠ none) ∧
    (∀ th, c.stage = .running th → th (.inl .indexer) ≠ .panic (.lastBlockNotSet target)) ∧
    ∀ log, Coverage.Due chains target log c.store → .handled target log ∈ c.store.log := by
  obtain ⟨hinv, hfault⟩ := invariant_of_covers (Coverage.covers route hmono)
    (tolerates_coverage route chains) hc
  refine ⟨fun hsync => hinv.set hsync target, fun th hth he => ?_, hinv.covered target⟩
  obtain ⟨s, -, hf⟩ := hfault th .indexer _ hth he
  exact hf target rfl

/-- A node that is faithful to a route is so to one that looks back further. -/
lemma faithful_of_lookback {chains : ScanTarget → Chain} {route' : Route} {i : Role} {q : Query}
    {a : q.Answer} {w : World}
    (hle : route.settings.syncLookbackSecs ≤ route'.settings.syncLookbackSecs)
    (h : Coverage.Faithful route chains i q a w) : Coverage.Faithful route' chains i q a w := by
  have hlater : Coverage.Later route chains w → Coverage.Later route' chains w := fun hl target =>
    (Nat.sub_le_sub_left hle _).trans_lt (hl target)
  cases i with
  | dispatcher => trivial
  | indexer =>
    cases q with
    | blockByNumber p n =>
      cases n with
      | latest =>
        rcases a with e | _ | b
        · trivial
        · trivial
        · intro target hp
          obtain ⟨hnumber, hts, hl⟩ := h target hp
          exact ⟨hnumber, hts, fun hin => hlater (hl hin)⟩
      | number n =>
        rcases a with e | _ | b
        · trivial
        · trivial
        · exact h
      | finalized => trivial
    | logs p f =>
      cases a with
      | ok logs => exact h
      | error e => trivial
    | _ => trivial

/-- A route on the chains of the sample, after its initialisation. -/
def launched (route : Route) : Coop.Config Thread World Panic Query.Answer where
  store := ((startRoute route).eval Coverage.sampleNode { heads := Coverage.sampleHeads }).2
  thread
    | .inl .indexer => Indexer.run route 1
    | .inl .dispatcher => Dispatcher.run route 0
    | .inr () => EpochWatcher.watchEpochs route true 3600 1 {}

def threads : List Thread := [.inl .indexer, .inl .dispatcher, .inr ()]

lemma mem_threads (i : Thread) : i ∈ threads := by
  rcases i with (_ | _) | _ <;> simp [threads]

/-- A turn of the watcher, and then one of the indexer. -/
def sampleTurns : List (Thread × ((q : Query) → q.Answer)) :=
  List.replicate 2 (.inr (), Coverage.sampleNode) ++
    List.replicate 28 (.inl .indexer, Coverage.sampleNode)

def scanned (route : Route) : Coop.Config Thread World Panic Query.Answer :=
  (launched route).play sampleTurns

abbrev sampleSystem (route : Route) : Staged Thread World Panic Query.Answer ℕ :=
  routeSystem route true Coverage.Fresh (Coverage.Faithful route Coverage.sampleChains) Restarted

/-- The chains of the sample have the heads they had. -/
def still (w : World) : Bool := decide (w.heads = Coverage.sampleHeads)

lemma reachable_scanned {route : Route}
    (hlookback : Coverage.sampleRoute.settings.syncLookbackSecs ≤ route.settings.syncLookbackSecs)
    (hstart : ((startRoute route).eval Coverage.sampleNode { heads := Coverage.sampleHeads }).1 =
      .ok 3600)
    (hvisits : (startRoute route).evalVisits Coverage.sampleNode still
      { heads := Coverage.sampleHeads } = true)
    (hplays : (launched route).plays threads sampleTurns = true)
    (hstill : (launched route).visits still sampleTurns = true) :
    (sampleSystem route).Reachable ⟨(scanned route).store, .running (scanned route).thread⟩ := by
  have hnode : ∀ (i : Thread) q (w : World), still w = true →
      (sampleSystem route).answer i q (Coverage.sampleNode q) w := by
    intro i q w hw
    rcases i with i | _
    · exact faithful_of_lookback hlookback (Coverage.faithful_sampleNode (of_decide_eq_true hw) i q)
    · trivial
  have hlaunch : (sampleSystem route).Reachable
      ⟨(launched route).store, .running (launched route).thread⟩ := by
    refine Staged.reachable_launch (o := Coverage.sampleNode) (b := 3600) (v := still)
      (hnode (.inl .indexer)) (fun i => ?_) (s := { heads := Coverage.sampleHeads }) rfl
      (Prod.ext hstart rfl) hvisits
    rcases i with (_ | _) | _
    · exact ⟨1, rfl⟩
    · exact ⟨0, rfl⟩
    · exact ⟨1, rfl⟩
  refine Staged.reachable_visits mem_threads (v := still) (fun x hx q s hs => ?_) hlaunch hplays
    hstill
  have hx2 : x.2 = Coverage.sampleNode := by
    rcases List.mem_append.mp hx with hx | hx
    · rw [List.eq_of_mem_replicate hx]
    · rw [List.eq_of_mem_replicate hx]
  rw [hx2]
  exact hnode x.1 q s hs

theorem route_loses_no_log_sample : ∃ w th,
    (sampleSystem Coverage.sampleRoute).Reachable ⟨w, .running th⟩ ∧
    .handled .outbox (Sample.claimed 5 1 250) ∈ w.log := by
  have hdue : Coverage.Due Coverage.sampleChains .outbox (Sample.claimed 5 1 250)
      (scanned Coverage.sampleRoute).store :=
    ⟨2000, 280, 250, by decide +kernel, by decide +kernel, List.mem_singleton_self _, rfl, by decide,
      .inl (by decide)⟩
  have hscanned := reachable_scanned (le_refl Coverage.sampleRoute.settings.syncLookbackSecs)
    (by decide +kernel) (by decide +kernel) (by decide +kernel) (by decide +kernel)
  generalize scanned Coverage.sampleRoute = c at hdue hscanned
  exact ⟨_, _, hscanned, (route_loses_no_log Coverage.sampleRoute true
    Coverage.monotone_sampleChains hscanned .outbox).2.2 _ hdue⟩

end Main

end VeaValidator
