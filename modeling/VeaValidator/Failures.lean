import VeaValidator.Changes
import VeaValidator.Coop.Talk
import VeaValidator.Interleaving

/-!
Calls that fail during a scan.

A scan gives up without a trace when it cannot read its head or its logs: it asks for nothing more
and returns. The search for the target of the catch-up tries every block three times, with a pause
in between, and then stops the route; the files are still as they were.
-/

namespace VeaValidator

open Coop

namespace Failures

/-- The call of a node fails. -/
def Failed (q : Query) (a : q.Answer) : Prop := (∀ n, q ≠ .sleep n) ∧ ∃ e, a = .error e

/-- The cursor of the chain, the claims and the tasks are the same. -/
structure Untouched (target : ScanTarget) (s t : World) : Prop where
  cursor : t.lastBlock target = s.lastBlock target
  claims : t.claims = s.claims
  tasks : t.schedule.tasks = s.schedule.tasks

/-- The last answers are three failures to fetch a block, with the pauses between them, and the
panic is about the last of them. -/
def Exhausted (l : List ((q : Query) × q.Answer)) (p : Panic) : Prop :=
  ∃ l₀ provider block e₁ e₂ e₃ a₁ a₂, p = .failedToGetBlock block e₃ ∧ l = l₀ ++
    [⟨.blockByNumber provider block, .error e₁⟩, ⟨.sleep 5, a₁⟩,
      ⟨.blockByNumber provider block, .error e₂⟩, ⟨.sleep 15, a₂⟩,
      ⟨.blockByNumber provider block, .error e₃⟩]

/-- After a failure the call is made again as long as it fails, with these pauses before it. When
there is none left the talk is over, as `End` says. -/
def Retried (End : Prop) (q : Query) : List ℕ → List ((q : Query) × q.Answer) → Prop
  | [], l => l = [] ∧ End
  | n :: pauses, l => ∃ w a l', l = ⟨.sleep n, w⟩ :: ⟨q, a⟩ :: l' ∧
    (Failed q a → Retried End q pauses l')

/-- What a failed call means in a search: there are up to two more attempts, and the panic at the
end if they all fail. -/
def Searched (l : List ((q : Query) × q.Answer)) (x : (q : Query) × q.Answer)
    (l' : List ((q : Query) × q.Answer)) (e : Option Panic) : Prop :=
  ∃ pauses, pauses <:+ [5, 15] ∧
    Retried (∃ p, e = some p ∧ Exhausted (l ++ x :: l') p) x.1 pauses l'

variable {route : Route} {target : ScanTarget} {s t u : World}
  {l l' : List ((q : Query) × q.Answer)} {q : Query} {a : q.Answer}

lemma Untouched.refl (s : World) : Untouched target s s := ⟨rfl, rfl, rfl⟩

lemma Untouched.trans (h : Untouched target s t) (h' : Untouched target t u) :
    Untouched target s u :=
  ⟨h'.cursor.trans h.cursor, h'.claims.trans h.claims, h'.tasks.trans h.tasks⟩

lemma untouched_setCatchup (target' : ScanTarget) (c : Catchup) :
    Untouched target s (s.setCatchup target' c) := by
  cases target' <;> exact ⟨rfl, rfl, rfl⟩

lemma Exhausted.append {p : Panic} (l₀ : List ((q : Query) × q.Answer)) (h : Exhausted l p) :
    Exhausted (l₀ ++ l) p := by
  obtain ⟨l₁, provider, block, e₁, e₂, e₃, a₁, a₂, hp, rfl⟩ := h
  exact ⟨l₀ ++ l₁, provider, block, e₁, e₂, e₃, a₁, a₂, hp, (List.append_assoc _ _ _).symm⟩

lemma Retried.mono {End End' : Prop} (h : End → End') :
    ∀ {pauses : List ℕ} {l : List ((q : Query) × q.Answer)},
      Retried End q pauses l → Retried End' q pauses l
  | [], _, ⟨hl, hend⟩ => ⟨hl, h hend⟩
  | _ :: _, _, ⟨w, a, l', hl, hrest⟩ => ⟨w, a, l', hl, fun ha => (hrest ha).mono h⟩

/-- A talk that is not at its end yet can go on with anything. -/
lemma Retried.append {End : Prop} (l₁ : List ((q : Query) × q.Answer)) :
    ∀ {pauses : List ℕ} {l : List ((q : Query) × q.Answer)},
      Retried False q pauses l → Retried End q pauses (l ++ l₁)
  | [], _, ⟨_, hend⟩ => hend.elim
  | _ :: _, _, ⟨w, a, l', hl, hrest⟩ =>
    ⟨w, a, l' ++ l₁, by rw [hl]; rfl, fun ha => (hrest ha).append l₁⟩

/-! ### The search for the target -/

/-- A failed call of the program is one of a search. -/
abbrev Brittle {α : Type} (p : M α) : Prop := Prog.Brittle Failed Searched p

lemma Brittle.bind {α β : Type} {p : M α} {g : α → M β} (hp : Brittle p)
    (hg : ∀ a, Brittle (g a)) : Brittle (p >>= g) := by
  refine Prog.Brittle.bind ?_ ?_ hp hg
  · rintro l₀ l x l' e ⟨pauses, hpauses, h⟩
    refine ⟨pauses, hpauses, h.mono ?_⟩
    rintro ⟨p, he, hp⟩
    exact ⟨p, he, by simpa using hp.append l₀⟩
  · rintro l x l' l₁ e ⟨pauses, hpauses, h⟩
    exact ⟨pauses, hpauses, (h.mono fun ⟨_, he, _⟩ => nomatch he).append l₁⟩

/-- The four talks of a fetch: it succeeds at the first, second or third attempt, or never. -/
lemma talks_getBlockWithRetry {provider : Provider} {block : BlockNumberOrTag}
    {rely : World → World → Prop} {r : Except Panic Header}
    (h : (getBlockWithRetry provider block).Talks rely s l r t) :
    (∃ b, l = [⟨.blockByNumber provider block, .ok b⟩]) ∨
    (∃ e₁ w₁ b, l = [⟨.blockByNumber provider block, .error e₁⟩, ⟨.sleep 5, w₁⟩,
      ⟨.blockByNumber provider block, .ok b⟩]) ∨
    (∃ e₁ w₁ e₂ w₂ b, l = [⟨.blockByNumber provider block, .error e₁⟩, ⟨.sleep 5, w₁⟩,
      ⟨.blockByNumber provider block, .error e₂⟩, ⟨.sleep 15, w₂⟩,
      ⟨.blockByNumber provider block, .ok b⟩]) ∨
    ∃ e₁ w₁ e₂ w₂ e₃, r = .error (.failedToGetBlock block e₃) ∧
      l = [⟨.blockByNumber provider block, .error e₁⟩, ⟨.sleep 5, w₁⟩,
        ⟨.blockByNumber provider block, .error e₂⟩, ⟨.sleep 15, w₂⟩,
        ⟨.blockByNumber provider block, .error e₃⟩] := by
  obtain ⟨u₁, -, a₁, l₁, rfl, h⟩ := h
  rcases a₁ with e₁ | b
  · obtain ⟨u₂, -, w₁, l₂, rfl, u₃, -, a₂, l₃, rfl, h⟩ := h
    rcases a₂ with e₂ | b
    · obtain ⟨u₄, -, w₂, l₄, rfl, u₅, -, a₃, l₅, rfl, h⟩ := h
      rcases a₃ with e₃ | b
      · obtain ⟨rfl, rfl, -⟩ := h
        exact .inr (.inr (.inr ⟨e₁, w₁, e₂, w₂, e₃, rfl, rfl⟩))
      · obtain rfl : l₅ = [] := by cases b <;> exact h.1
        exact .inr (.inr (.inl ⟨e₁, w₁, e₂, w₂, b, rfl⟩))
    · obtain rfl : l₃ = [] := by cases b <;> exact h.1
      exact .inr (.inl ⟨e₁, w₁, b, rfl⟩)
  · obtain rfl : l₁ = [] := by cases b <;> exact h.1
    exact .inl ⟨b, rfl⟩

lemma not_failed_ok {q : Query} {r : q.Result} : ¬Failed q (.ok r) := fun h => h.2.elim nofun

/-- A failed call is the first one of a talk or a later one. -/
lemma failed_cons {x : (q : Query) × q.Answer} {m : List ((q : Query) × q.Answer)}
    (hl : l ++ ⟨q, a⟩ :: l' = x :: m) :
    (l = [] ∧ x = ⟨q, a⟩ ∧ l' = m) ∨ ∃ l₁, l = x :: l₁ ∧ l₁ ++ ⟨q, a⟩ :: l' = m := by
  rcases List.append_eq_cons_iff.mp hl with ⟨rfl, hl⟩ | ⟨l₁, rfl, rfl⟩
  · obtain ⟨rfl, rfl⟩ := List.cons.inj hl
    exact .inl ⟨rfl, rfl, rfl⟩
  · exact .inr ⟨l₁, rfl, rfl⟩

/-- A call that succeeds is not the one that fails. -/
lemma failed_tail {x : (q : Query) × q.Answer} {m : List ((q : Query) × q.Answer)}
    (hl : l ++ ⟨q, a⟩ :: l' = x :: m) (hfail : Failed q a) (hx : ¬Failed x.1 x.2) :
    ∃ l₁, l = x :: l₁ ∧ l₁ ++ ⟨q, a⟩ :: l' = m := by
  rcases failed_cons hl with ⟨-, rfl, -⟩ | h
  · exact absurd hfail hx
  · exact h

/-- The failed call of a search is the attempt at hand or comes after the pause. -/
lemma failed_attempt {x : (q : Query) × q.Answer} {n : ℕ} {w : (Query.sleep n).Answer}
    {m : List ((q : Query) × q.Answer)} (hl : l ++ ⟨q, a⟩ :: l' = x :: ⟨.sleep n, w⟩ :: m)
    (hfail : Failed q a) :
    (l = [] ∧ x = ⟨q, a⟩ ∧ l' = ⟨.sleep n, w⟩ :: m) ∨
      ∃ l₁, l = x :: ⟨.sleep n, w⟩ :: l₁ ∧ l₁ ++ ⟨q, a⟩ :: l' = m := by
  rcases failed_cons hl with h | ⟨l₁, rfl, hl₁⟩
  · exact .inl h
  · rcases failed_cons hl₁ with ⟨-, hx, -⟩ | ⟨l₂, rfl, hl₂⟩
    · cases hx
      exact absurd rfl (hfail.1 n)
    · exact .inr ⟨l₂, rfl, hl₂⟩

lemma failed_ne_ok {q' : Query} {b : q'.Result} (hfail : Failed q a) :
    l ++ ⟨q, a⟩ :: l' ≠ [⟨q', .ok b⟩] := fun hl => by
  obtain ⟨l₁, -, hl⟩ := failed_tail hl hfail not_failed_ok
  exact absurd hl (by simp)

lemma brittle_getBlockWithRetry (provider : Provider) (block : BlockNumberOrTag) :
    Brittle (getBlockWithRetry provider block) := by
  rintro rely s l q a l' r t h hfail
  rcases talks_getBlockWithRetry h with ⟨b, hl⟩ | ⟨e₁, w₁, b, hl⟩ | ⟨e₁, w₁, e₂, w₂, b, hl⟩ |
    ⟨e₁, w₁, e₂, w₂, e₃, rfl, hl⟩
  · exact absurd hl (failed_ne_ok hfail)
  · rcases failed_attempt hl hfail with ⟨rfl, hx, rfl⟩ | ⟨l₁, -, hl₁⟩
    · cases hx
      exact ⟨[5, 15], List.suffix_rfl, w₁, _, _, rfl, fun h => absurd h not_failed_ok⟩
    · exact absurd hl₁ (failed_ne_ok hfail)
  · rcases failed_attempt hl hfail with ⟨rfl, hx, rfl⟩ | ⟨l₁, -, hl₁⟩
    · cases hx
      refine ⟨[5, 15], List.suffix_rfl, w₁, _, _, rfl, fun _ => ?_⟩
      exact ⟨w₂, _, _, rfl, fun h => absurd h not_failed_ok⟩
    rcases failed_attempt hl₁ hfail with ⟨rfl, hx, rfl⟩ | ⟨l₂, -, hl₂⟩
    · cases hx
      exact ⟨[15], List.suffix_cons _ _, w₂, _, _, rfl, fun h => absurd h not_failed_ok⟩
    · exact absurd hl₂ (failed_ne_ok hfail)
  · have hend : ∃ p, Prog.error? (α := Header) (.error (.failedToGetBlock block e₃)) = some p ∧
        Exhausted (l ++ ⟨q, a⟩ :: l') p :=
      ⟨_, rfl, [], provider, block, e₁, e₂, e₃, w₁, w₂, rfl, hl⟩
    rcases failed_attempt hl hfail with ⟨rfl, hx, rfl⟩ | ⟨l₁, rfl, hl₁⟩
    · cases hx
      refine ⟨[5, 15], List.suffix_rfl, w₁, _, _, rfl, fun _ => ?_⟩
      exact ⟨w₂, _, _, rfl, fun _ => ⟨rfl, hend⟩⟩
    rcases failed_attempt hl₁ hfail with ⟨rfl, hx, rfl⟩ | ⟨l₂, rfl, hl₂⟩
    · cases hx
      exact ⟨[15], List.suffix_cons _ _, w₂, _, _, rfl, fun _ => ⟨rfl, hend⟩⟩
    rcases failed_cons hl₂ with ⟨rfl, hx, rfl⟩ | ⟨l₃, -, hl₃⟩
    · cases hx
      exact ⟨[], List.nil_suffix, rfl, hend⟩
    · exact absurd hl₃ (by simp)

lemma brittle_findBlockByTimestamp (provider : Provider) (targetTs : ℕ) :
    Brittle (findBlockByTimestamp provider targetTs) := by
  have hbisect : ∀ fuel lo hi, Brittle (bisect provider targetTs fuel lo hi) := by
    intro fuel
    induction fuel with
    | zero => exact fun _ _ => Prog.Brittle.pure
    | succ fuel ih =>
      refine fun lo hi => Prog.Brittle.ite ?_ Prog.Brittle.pure
      refine Brittle.bind (brittle_getBlockWithRetry _ _) fun b => ?_
      exact Prog.Brittle.ite (ih _ _) (ih _ _)
  refine Brittle.bind (brittle_getBlockWithRetry _ _) fun latest => ?_
  exact Prog.Brittle.ite Prog.Brittle.pure (hbisect _ _ _)

lemma brittle_catchupTarget (target : ScanTarget) (now fromBlock : ℕ) :
    Brittle (Indexer.catchupTarget target now fromBlock) := by
  refine Brittle.bind Prog.Brittle.gets fun c => Prog.Brittle.ite ?_ Prog.Brittle.pure
  refine Brittle.bind (brittle_findBlockByTimestamp _ _) fun b => ?_
  exact Brittle.bind Prog.Brittle.modify fun _ => Prog.Brittle.pure

/-- The search leaves the files alone, as the others do. -/
lemma untouched_catchupTarget {now fromBlock : ℕ} {r : Except Panic ℕ}
    (h : (Indexer.catchupTarget target now fromBlock).Talks (Untouched target) s l r t) :
    Untouched target s t := by
  let P : Protocol Unit World Panic Query.Answer :=
    .disturbed (Untouched target) (fun _ _ _ => True) fun _ u => Untouched target s u
  have hp : Patient P () (Untouched target s) :=
    ⟨fun u v hu huv _ => hu.trans huv, fun _ _ _ _ _ => trivial, fun _ _ _ _ hu => hu⟩
  have hkeeps : Prog.Keeps P () (Untouched target s)
      (Indexer.catchupTarget target now fromBlock) := by
    refine Prog.Keeps.bind Prog.Keeps.gets fun c => Prog.Keeps.ite (fun _ => ?_) fun _ => Prog.Keeps.pure
    refine Prog.Keeps.bind (hp.keeps (quiet_findBlockByTimestamp _ _)) fun b => ?_
    refine Prog.Keeps.bind (fun u _ hu => ?_) fun _ => Prog.Keeps.pure
    exact ⟨trivial, trivial, trivial, hu.trans (untouched_setCatchup _ _)⟩
  obtain ⟨hok, herror⟩ := Prog.wp_runs_disturbed (hkeeps s trivial (.refl s)) h.runs
  cases r with
  | ok b => exact (hok b rfl).2
  | error e => exact herror e rfl

/-! ### The scan -/

/-- Before the logs are there, only their query can fail, and nothing follows it. -/
lemma talks_scanChunk {fromBlock targetBlock : ℕ} {r : Except Panic Bool}
    (h : (Indexer.scanChunk route target fromBlock targetBlock).Talks (Untouched target) s
      (l ++ ⟨q, a⟩ :: l') r t) (hfail : Failed q a) (hscan : ∀ x ∈ l, x.1.Logless) :
    ¬q.Logless ∧ l' = [] ∧ r = .ok false ∧ Untouched target s t := by
  obtain ⟨u, hu, answer, m, hl, h⟩ := h
  cases answer with
  | error e =>
    obtain ⟨rfl, rfl, rfl⟩ := h
    rcases failed_cons hl with ⟨-, hx, rfl⟩ | ⟨l₁, -, hl₁⟩
    · cases hx
      exact ⟨fun hq => hq _ _ rfl, rfl, rfl, hu⟩
    · exact absurd hl₁ (by simp)
  | ok logs =>
    obtain ⟨l₁, rfl, -⟩ := failed_tail hl hfail not_failed_ok
    exact absurd rfl (hscan _ List.mem_cons_self _ _)

lemma talks_cursor {rely : World → World → Prop} {r : Except Panic ℕ}
    (h : (Indexer.cursor target).Talks rely s l r t) : l = [] ∧ t = s := by
  rcases Prog.talks_bind.mp h with ⟨b, u, l₁, l₂, rfl, ⟨rfl, -, rfl⟩, h⟩ | ⟨e, -, -, he, -⟩
  · cases b with
    | none => exact ⟨h.1, h.2.2⟩
    | some b => exact ⟨h.1, h.2.2⟩
  · cases he

/-- What a scan does once it has its target. -/
lemma talks_located {fromBlock targetBlock : ℕ} {r : Except Panic Bool}
    (h : (do
      if fromBlock ≥ targetBlock then do
        Indexer.modifyCatchup target fun _ => {}
        pure true
      else do
        if (← Indexer.catchup target).start = 0 then
          Indexer.modifyCatchup target fun c => { c with start := fromBlock, lastLoggedPct := 0 }
        Indexer.scanChunk route target fromBlock targetBlock : M Bool).Talks (Untouched target) s
      (l ++ ⟨q, a⟩ :: l') r t) (hfail : Failed q a) (hscan : ∀ x ∈ l, x.1.Logless) :
    ¬q.Logless ∧ l' = [] ∧ r = .ok false ∧ Untouched target s t := by
  by_cases hdone : fromBlock ≥ targetBlock
  · rw [if_pos hdone] at h
    exact absurd h.1 (by simp)
  rw [if_neg hdone] at h
  by_cases hstart : (s.catchup target).start = 0
  · have h' := h
    unfold Indexer.catchup Prog.gets at h'
    simp only [Bind.bind, Prog.bind, Prog.Talks, hstart, if_true] at h'
    obtain ⟨hq, hl', hr, ht⟩ := talks_scanChunk h' hfail hscan
    exact ⟨hq, hl', hr, (untouched_setCatchup _ _).trans ht⟩
  · have h' := h
    unfold Indexer.catchup Prog.gets at h'
    simp only [Bind.bind, Prog.bind, Prog.Talks, hstart, if_false] at h'
    exact talks_scanChunk h' hfail hscan

/-- What a scan does once it has its head. -/
lemma talks_headed {now : ℕ} {r : Except Panic Bool}
    (h : (do
      let fromBlock ← Indexer.cursor target
      let targetBlock ← Indexer.catchupTarget target now fromBlock
      if fromBlock ≥ targetBlock then do
        Indexer.modifyCatchup target fun _ => {}
        pure true
      else do
        if (← Indexer.catchup target).start = 0 then
          Indexer.modifyCatchup target fun c => { c with start := fromBlock, lastLoggedPct := 0 }
        Indexer.scanChunk route target fromBlock targetBlock : M Bool).Talks (Untouched target) s
      (l ++ ⟨q, a⟩ :: l') r t) (hfail : Failed q a) (hscan : ∀ x ∈ l, x.1.Logless) :
    (¬q.Logless → l' = [] ∧ r = .ok false ∧ Untouched target s t) ∧
      (q.Logless → ∃ pauses, pauses <:+ [5, 15] ∧
        Retried (Untouched target s t ∧ ∃ p, r = .error p ∧ Exhausted (l ++ ⟨q, a⟩ :: l') p) q
          pauses l') := by
  rcases Prog.talks_bind.mp h with ⟨fromBlock, w, l₃, l₄, hl₄, hcursor, h⟩ | ⟨e, -, hcursor⟩
  swap
  · exact absurd (talks_cursor hcursor).1 (by simp)
  obtain ⟨rfl, rfl⟩ := talks_cursor hcursor
  rw [List.nil_append] at hl₄
  subst hl₄
  have hbrittle := brittle_catchupTarget target now fromBlock
  have hlogless : ∀ {m : List ((q : Query) × q.Answer)} {r : Except Panic ℕ} {u : World},
      (Indexer.catchupTarget target now fromBlock).Talks (Untouched target) w
        (l ++ ⟨q, a⟩ :: m) r u → q.Logless := fun htarget =>
    (Logless.catchupTarget target now fromBlock).talks htarget ⟨q, a⟩
      (List.mem_append_right l List.mem_cons_self)
  rcases Prog.talks_bind_cons h with ⟨targetBlock, x, l₁, l₂, rfl, htarget, h⟩ |
    ⟨targetBlock, x, l₁, l₂, rfl, htarget, -⟩ | ⟨p, rfl, htarget⟩
  · have hwx := untouched_catchupTarget htarget
    obtain ⟨hq, hl', hr, hxt⟩ :=
      talks_located h hfail fun x hx => hscan x (List.mem_append_right _ hx)
    exact ⟨fun _ => ⟨hl', hr, hwx.trans hxt⟩, fun hq' => absurd hq' hq⟩
  · refine ⟨fun hq => absurd (hlogless htarget) hq, fun _ => ?_⟩
    obtain ⟨pauses, hpauses, hretried⟩ := hbrittle _ _ _ _ _ _ _ _ htarget hfail
    exact ⟨pauses, hpauses, (hretried.mono fun ⟨_, he, _⟩ => nomatch he).append l₂⟩
  · refine ⟨fun hq => absurd (hlogless htarget) hq, fun _ => ?_⟩
    obtain ⟨pauses, hpauses, hretried⟩ := hbrittle _ _ _ _ _ _ _ _ htarget hfail
    refine ⟨pauses, hpauses, hretried.mono ?_⟩
    rintro ⟨p', hp', hexhausted⟩
    cases hp'
    exact ⟨untouched_catchupTarget htarget, p, rfl, hexhausted⟩

/-- **A scan whose call fails leaves nothing behind.** Let a call fail before a handler is at work.
When it was one of the two calls for the head or the query for the logs, the scan asks for nothing
more and returns `false`. Otherwise it was the attempt to fetch a block of the search, which is made
again after the pauses that are left; when these fail as well nothing more is asked for either, and
the route stops. In both cases the cursor, the claims and the tasks are as they were. -/
theorem failed_scan (route : Route) (target : ScanTarget) {s t : World}
    {l l' : List ((q : Query) × q.Answer)} {q : Query} {a : q.Answer} {r : Except Panic Bool}
    (h : (Indexer.scanChain route target).Talks (Untouched target) s (l ++ ⟨q, a⟩ :: l') r t)
    (hfail : Failed q a) (hscan : ∀ x ∈ l, x.1.Logless) :
    (l.length < 2 ∨ ¬q.Logless → l' = [] ∧ r = .ok false ∧ Untouched target s t) ∧
      (2 ≤ l.length → q.Logless → ∃ pauses, pauses <:+ [5, 15] ∧
        Retried (Untouched target s t ∧ ∃ p, r = .error p ∧ Exhausted (l ++ ⟨q, a⟩ :: l') p) q
          pauses l') := by
  obtain ⟨u, hsu, number, m, hl, h⟩ := h
  rcases number with e | currentBlock
  · obtain ⟨rfl, rfl, rfl⟩ := h
    rcases failed_cons hl with ⟨rfl, -, rfl⟩ | ⟨l₁, -, hl₁⟩
    · exact ⟨fun _ => ⟨rfl, rfl, hsu⟩, fun hlen => absurd hlen (by decide)⟩
    · exact absurd hl₁ (by simp)
  obtain ⟨l, rfl, rfl⟩ := failed_tail hl hfail not_failed_ok
  obtain ⟨v, huv, block, m, hm, h⟩ := h
  have hsv := hsu.trans huv
  rcases block with e | _ | block
  · obtain ⟨rfl, rfl, rfl⟩ := h
    rcases failed_cons hm with ⟨rfl, -, rfl⟩ | ⟨l₁, -, hl₁⟩
    · exact ⟨fun _ => ⟨rfl, rfl, hsv⟩, fun hlen => absurd hlen (by simp)⟩
    · exact absurd hl₁ (by simp)
  · obtain ⟨rfl, -, -⟩ := h
    exact absurd hm (failed_ne_ok hfail)
  obtain ⟨l, rfl, rfl⟩ := failed_tail hm hfail not_failed_ok
  -- What is left of the scan asks for the target and then for the logs.
  obtain ⟨hlogs, hsearch⟩ := talks_headed h hfail fun x hx =>
    hscan x (List.mem_cons_of_mem _ (List.mem_cons_of_mem _ hx))
  constructor
  · intro hq
    obtain ⟨hl', hr, hvt⟩ := hlogs (hq.resolve_left (by simp))
    exact ⟨hl', hr, hsv.trans hvt⟩
  · intro _ hq
    obtain ⟨pauses, hpauses, hretried⟩ := hsearch hq
    refine ⟨pauses, hpauses, hretried.mono ?_⟩
    rintro ⟨hvt, p, hr, hp⟩
    exact ⟨hsv.trans hvt, p, hr, hp.append [_, _]⟩

/-! ### Scans that stop the route -/

/-- The head of the outbox can be read by its number only, and not its block 25. -/
def sampleNode : (q : Query) → q.Answer
  | .blockNumber _ => .ok 150
  | .blockByNumber _ (.number n) => if n = 25 then .error "timed out" else .ok (some ⟨n, 10 * n⟩)
  | .blockByNumber _ _ => .error "timed out"
  | .logs _ _ =>
    .ok [Sample.claimed 5 1 20, { Sample.claimed 6 1 25 with blockTimestamp := none }]
  | q => Sample.node 1500 0 q

/-- The outbox has been scanned up to block 10; the target of its catch-up is block `n`. -/
def fromBlock10 (n : ℕ) : World :=
  { schedule := { outboxLastBlock := some 10 }, outboxCatchup := { target := n } }

/-- The two calls for the head. -/
def headCalls : List ((q : Query) × q.Answer) :=
  [⟨.blockNumber .outbox, .ok 150⟩, ⟨.blockByNumber .outbox (.number 150), .ok (some ⟨150, 1500⟩)⟩]

/-- After the first attempt to read the head again has failed. -/
def retries : List ((q : Query) × q.Answer) :=
  [⟨.sleep 5, .ok ()⟩, ⟨.blockByNumber .outbox .latest, .error "timed out"⟩,
    ⟨.sleep 15, .ok ()⟩, ⟨.blockByNumber .outbox .latest, .error "timed out"⟩]

lemma talks_search : (Indexer.scanChain Sample.route .outbox).Talks (Untouched .outbox)
    (fromBlock10 0) (headCalls ++ ⟨.blockByNumber .outbox .latest, .error "timed out"⟩ :: retries)
    (.error (.failedToGetBlock .latest "timed out")) (fromBlock10 0) :=
  Prog.talks_exchanges .refl sampleNode (Indexer.scanChain Sample.route .outbox) (fromBlock10 0)

lemma logless_headCalls : ∀ x ∈ headCalls, x.1.Logless := by
  intro x hx
  simp only [headCalls, List.mem_cons, List.not_mem_nil, or_false] at hx
  rcases hx with rfl | rfl <;> exact nofun

theorem failed_scan_sample : ∃ pauses, pauses <:+ [5, 15] ∧
    Retried (Untouched .outbox (fromBlock10 0) (fromBlock10 0) ∧
      ∃ p, (Except.error (.failedToGetBlock .latest "timed out") : Except Panic Bool) = .error p ∧
        Exhausted (headCalls ++ ⟨.blockByNumber .outbox .latest, .error "timed out"⟩ :: retries) p)
      (.blockByNumber .outbox .latest) pauses retries := by
  obtain ⟨-, hsearch⟩ :=
    failed_scan Sample.route .outbox talks_search ⟨nofun, _, rfl⟩ logless_headCalls
  exact hsearch (by decide) nofun

/-- The chunk from block 10 to 30 is there, and the time of its second log is asked for. -/
def handlerCalls : List ((q : Query) × q.Answer) :=
  [⟨.blockNumber .outbox, .ok 150⟩, ⟨.blockByNumber .outbox (.number 150), .ok (some ⟨150, 1500⟩)⟩,
    ⟨.logs .outbox (Indexer.chunkFilter Sample.route .outbox 10 30),
      .ok [Sample.claimed 5 1 20, { Sample.claimed 6 1 25 with blockTimestamp := none }]⟩]

/-- A search that fails stops the route, and a handler that fails stops it with the first log of the
chunk applied. -/
theorem scan_panics :
    (∃ p, (Indexer.scanChain Sample.route .outbox).Talks (Untouched .outbox) (fromBlock10 0)
      (headCalls ++ ⟨.blockByNumber .outbox .latest, .error "timed out"⟩ :: retries) (.error p)
      (fromBlock10 0)) ∧
    ∃ p t, (Indexer.scanChain Sample.route .outbox).Talks (Untouched .outbox) (fromBlock10 30)
      (handlerCalls ++ [⟨.blockByNumber .outbox (.number 25), .error "timed out"⟩]) (.error p) t ∧
      t.claims ≠ (fromBlock10 30).claims := by
  refine ⟨⟨_, talks_search⟩, _, _, Prog.talks_exchanges .refl sampleNode
    (Indexer.scanChain Sample.route .outbox) (fromBlock10 30), ?_⟩
  decide +kernel

end Failures

end VeaValidator
