import VeaValidator.Coverage

/-!
A catch-up, call by call.

`scan_chain` reads the head of its chain, searches a target for the catch-up when it has none
left to reach, and handles the logs of one chunk. A session is any sequence of such calls on both
chains, with everything the others may do in between. It carries along, for each chain, the
basis of the catch-up: the head that was read by the call that searched the target in use.
-/

namespace VeaValidator

open Coop

namespace Indexer

/-- `scan_chain` from its first block on, up to its chunk: whether the chain is done, or else the
first block of the chunk and the target. -/
def aim (target : ScanTarget) (currentBlock : ℕ) : M (Bool ⊕ ℕ × ℕ) := do
  match ← Prog.ask (A := Query.Answer)
      (.blockByNumber (provider target) (.number currentBlock)) with
  | .ok (some currentBlockData) => do
    let fromBlock ← cursor target
    let targetBlock ← catchupTarget target currentBlockData.timestamp fromBlock
    if fromBlock ≥ targetBlock then do
      modifyCatchup target fun _ => {}
      pure (.inl true)
    else do
      if (← catchup target).start = 0 then
        modifyCatchup target fun c => { c with start := fromBlock, lastLoggedPct := 0 }
      pure (.inr (fromBlock, targetBlock))
  | _ => pure (.inl false)

/-- What `scan_chain` does once it has read the number of the head. -/
def scanAt (route : Route) (target : ScanTarget) (currentBlock : ℕ) : M Bool := do
  match ← aim target currentBlock with
  | .inl done => pure done
  | .inr (fromBlock, targetBlock) => scanChunk route target fromBlock targetBlock

/-- `scan_chain` reads the number of the head first. -/
theorem scanChain_eq (route : Route) (target : ScanTarget) : scanChain route target =
    (do
      match ← Prog.ask (A := Query.Answer) (.blockNumber (provider target)) with
      | .error _ => pure false
      | .ok currentBlock => scanAt route target currentBlock) := by
  unfold scanChain scanAt aim
  refine bind_congr fun a => ?_
  cases a with
  | error e => rfl
  | ok currentBlock =>
    dsimp only
    rw [bind_assoc]
    refine bind_congr fun b => ?_
    rcases b with e | _ | b
    · rfl
    · rfl
    · simp only [bind_assoc]
      refine bind_congr fun fromBlock => bind_congr fun targetBlock => ?_
      split
      · rfl
      · simp only [bind_assoc]
        refine bind_congr fun c => ?_
        split
        · rfl
        · rfl

end Indexer

namespace Catchup

/-- The head of the chain of `target`. -/
def head (target : ScanTarget) (w : World) : ℕ := w.heads.get (Indexer.provider target)

/-- A call has to search a target: there is none, or the cursor has reached it. -/
def Stale (target : ScanTarget) (w : World) : Prop :=
  (w.catchup target).target = 0 ∨ (w.catchup target).target ≤ (w.lastBlock target).getD 0

instance (target : ScanTarget) (w : World) : Decidable (Stale target w) :=
  inferInstanceAs (Decidable (_ ∨ _))

/-- The answers of nodes that follow the chains. A call may fail at any time. -/
def Tells (chains : ScanTarget → Chain) : (q : Query) → q.Answer → World → Prop
  | .blockNumber p, .ok n, w => n = w.heads.get p
  | .blockByNumber p .latest, .ok (some b), w => ∀ target, p = Indexer.provider target →
    b.number = w.heads.get p ∧ b.timestamp = (chains target).ts b.number
  | .blockByNumber p (.number n), .ok (some b), _ => ∀ target, p = Indexer.provider target →
    b.timestamp = (chains target).ts n
  | .logs p f, .ok logs, w => ∀ target, p = Indexer.provider target →
    (∀ log ∈ logs, log ∈ (chains target).logs ∧ log.Within f.fromBlock f.toBlock) ∧
    (f.toBlock ≤ w.heads.get p →
      ∀ log ∈ (chains target).logs, log.Within f.fromBlock f.toBlock → log ∈ logs)
  | _, _, _ => True

/-- What is left alone of a chain. -/
structure Spares (target : ScanTarget) (s t : World) : Prop where
  cursor : t.lastBlock target = s.lastBlock target
  catchup : t.catchup target = s.catchup target
  head : head target s ≤ head target t
  handled : ∀ log, .handled target log ∈ s.log → .handled target log ∈ t.log

/-- What the dispatcher and the chains do. -/
def Others (s t : World) : Prop := ∀ target, Spares target s t

/-- The basis of a chain after a call from `s`. -/
def basis (target : ScanTarget) (s : World) (b : ℕ) : ℕ :=
  if Stale target s then head target s else b

/-- The bases of the chains after a call. -/
def rebase (target : ScanTarget) (s : World) (B : ScanTarget → ℕ) : ScanTarget → ℕ :=
  Function.update B target (basis target s (B target))

/-- A session from `s₀` to a store, with the basis of each chain. -/
inductive Session (route : Route) (chains : ScanTarget → Chain) (s₀ : World) :
    (ScanTarget → ℕ) → World → Prop
  | boot {B : ScanTarget → ℕ} (hcursor : ∀ target, s₀.lastBlock target ≠ none)
      (hfresh : ∀ target, s₀.catchup target = {}) : Session route chains s₀ B s₀
  | wait {B : ScanTarget → ℕ} {s t : World} (h : Session route chains s₀ B s) (ht : Others s t) :
      Session route chains s₀ B t
  | call {B : ScanTarget → ℕ} {s t : World} {done : Bool} (target : ScanTarget)
      (h : Session route chains s₀ B s)
      (hrun : (Indexer.scanAt route target (head target s)).Runs Others (Tells chains) s
        (.ok done) t) : Session route chains s₀ (rebase target s B) t

/-- A session that ends with a turn in which both chains are done. -/
inductive Synced (route : Route) (chains : ScanTarget → Chain) (s₀ : World) :
    (ScanTarget → ℕ) → World → Prop
  | scanned {B : ScanTarget → ℕ} {s t u v : World} (h : Session route chains s₀ B s)
      (hinbox : (Indexer.scanAt route .inbox (head .inbox s)).Runs Others (Tells chains) s
        (.ok true) t)
      (ht : Others t u)
      (houtbox : (Indexer.scanAt route .outbox (head .outbox u)).Runs Others (Tells chains) u
        (.ok true) v) :
      Synced route chains s₀ (rebase .outbox u (rebase .inbox s B)) v

variable {route : Route} {chains : ScanTarget → Chain} {target : ScanTarget} {s t u : World}

lemma Spares.refl (target : ScanTarget) (s : World) : Spares target s s :=
  ⟨rfl, rfl, le_rfl, fun _ h => h⟩

lemma Spares.trans (h : Spares target s t) (h' : Spares target t u) : Spares target s u :=
  ⟨h'.cursor.trans h.cursor, h'.catchup.trans h.catchup, h.head.trans h'.head,
    fun log hm => h'.handled log (h.handled log hm)⟩

lemma Spares.stale (h : Spares target s t) : Stale target t ↔ Stale target s := by
  rw [Stale, h.cursor, h.catchup, Stale]

lemma Others.refl (s : World) : Others s s := fun target => .refl target s

lemma Others.trans (h : Others s t) (h' : Others t u) : Others s u :=
  fun target => (h target).trans (h' target)

lemma others_of_frame (h : Coverage.Frame s t) : Others s t := fun target =>
  ⟨h.cursor target, h.catchup target, by rw [head, head, h.heads], fun _ hm => h.handled hm⟩

/-! ### The target -/

/-- The time a catch-up aims at from the head `b`. -/
def buffered (ts : ℕ → ℕ) (b : ℕ) : ℕ := ts b - Indexer.finalityBufferSecs

/-- `r` is a target that is searched from the head `b`. On a chain that has no time to go back the
search ends at the head it sees itself. -/
def Found (ts : ℕ → ℕ) (b r : ℕ) : Prop :=
  (ts b = 0 ∧ ts r = 0) ∨ IsFirstAt ts (buffered ts b) r

/-- A target splits the blocks at the time it was searched for. -/
structure Aimed (ts : ℕ → ℕ) (b r : ℕ) : Prop where
  below : ∀ n < r, ts n ≤ buffered ts b
  above : ∀ n, ts n < buffered ts b → n < r

lemma Found.aimed {ts : ℕ → ℕ} {b r : ℕ} (hmono : Monotone ts) (h : Found ts b r) :
    Aimed ts b r := by
  rcases h with ⟨hb, hr⟩ | ⟨hat, hbelow⟩
  · have hzero : buffered ts b = 0 := by rw [buffered, hb, Nat.zero_sub]
    refine ⟨fun n hn => ?_, fun n hn => ?_⟩
    · have hle : ts n ≤ ts r := hmono hn.le
      omega
    · omega
  · refine ⟨fun n hn => (hbelow n hn).le, fun n hn => ?_⟩
    by_contra hge
    have hle : ts r ≤ ts n := hmono (Nat.le_of_not_lt hge)
    omega

/-- The target a call uses: the one in memory, or one that is searched from the head. -/
def Uses (chains : ScanTarget → Chain) (target : ScanTarget) (s : World) (r : ℕ) : Prop :=
  if Stale target s then Found (chains target).ts (head target s) r
  else r = (s.catchup target).target

/-! ### One call -/

section
variable {α : Type} {J : World → Prop}

/-- A call on its own, among the others and on the chains. -/
abbrev calls (chains : ScanTarget → Chain) : Protocol Unit World Panic Query.Answer :=
  .disturbed Others (Tells chains) fun _ _ => True

lemma patient (h : ∀ s t, J s → Others s t → J t) : Patient (calls chains) () J where
  rely s t hJ ht _ := h s t hJ ht
  issue _ _ _ _ _ := trivial
  fault _ _ _ _ _ := trivial

/-- The search from the head `head target s`. -/
lemma wp_search (hmono : Monotone (chains target).ts) (hs : Others s t) :
    (findBlockByTimestamp (Indexer.provider target)
      (buffered (chains target).ts (head target s))).wp (calls chains) ()
      (fun r u => (Found (chains target).ts (head target s) r ∧ r ≤ head target u) ∧ Others s u)
      t := by
  have hp : Patient (calls chains) () (Others s) := patient fun _ _ h h' => h.trans h'
  have hgrow : ∀ u v, Others u v → head target u ≤ head target v := fun u v h => (h target).head
  refine Prog.wp_mono ?_ (Prog.wp_and
    (wp_findBlockByTimestamp (L := fun n => head target s ≤ n) hp hmono (fun b u _ hu ha => ?_)
      (fun n b u _ _ ha => ha target rfl) trivial hs)
    (wp_findBlockByTimestamp_le hp hgrow (fun b u _ _ ha => ((ha target rfl).1).le) trivial hs))
  · rintro r u ⟨⟨⟨latest, hlatest, hr, hsplit⟩, -, hu⟩, hhead, -⟩
    refine ⟨⟨?_, hhead⟩, hu⟩
    have hts : (chains target).ts (head target s) ≤ (chains target).ts latest := hmono hlatest
    rcases hsplit with ⟨hle, rfl⟩ | ⟨-, hfirst⟩
    · refine .inl ?_
      unfold buffered Indexer.finalityBufferSecs at hle
      omega
    · exact .inr hfirst
  · obtain ⟨hnumber, hts⟩ := ha target rfl
    refine ⟨?_, hts⟩
    rw [hnumber]
    exact (hu target).head

/-- The cursor and the target of the chain are known, everything else is left alone as the others
do. -/
structure At (target : ScanTarget) (s : World) (fromBlock r : ℕ) (t : World) : Prop where
  cursor : t.lastBlock target = some fromBlock
  aim : (t.catchup target).target = r
  head : head target s ≤ head target t
  handled : ∀ log, .handled target log ∈ s.log → .handled target log ∈ t.log
  spares : ∀ target', target' ≠ target → Spares target' s t

lemma At.others {fromBlock r : ℕ} (h : At target s fromBlock r t) (ht : Others t u) :
    At target s fromBlock r u :=
  ⟨(ht target).cursor.trans h.cursor, by rw [(ht target).catchup, h.aim],
    h.head.trans (ht target).head, fun log hm => (ht target).handled log (h.handled log hm),
    fun target' hne => (h.spares target' hne).trans (ht target')⟩

lemma at_of_others {fromBlock : ℕ} (h : Others s t) (hcursor : s.lastBlock target = some fromBlock) :
    At target s fromBlock (s.catchup target).target t :=
  ⟨(h target).cursor.trans hcursor, by rw [(h target).catchup], (h target).head,
    (h target).handled, fun target' _ => h target'⟩

/-- A store to the atomics of the chain. -/
lemma At.setCatchup {fromBlock r : ℕ} (h : At target s fromBlock r t) (c : Catchup) :
    At target s fromBlock c.target (t.setCatchup target c) := by
  refine ⟨by rw [World.lastBlock_setCatchup, h.cursor], ?_, ?_, ?_, fun target' hne => ?_⟩
  · rw [World.catchup_setCatchup, if_pos rfl]
  · rw [Catchup.head, Catchup.head, World.heads_setCatchup]
    exact h.head
  · rw [World.log_setCatchup]
    exact h.handled
  · have hs := h.spares target' hne
    refine ⟨by rw [World.lastBlock_setCatchup, hs.cursor], ?_, ?_, ?_⟩
    · rw [World.catchup_setCatchup, if_neg hne, hs.catchup]
    · rw [Catchup.head, Catchup.head, World.heads_setCatchup]
      exact hs.head
    · rw [World.log_setCatchup]
      exact hs.handled

/-- Where a call stands before its chunk: it has failed, it is done, or it has found a chunk. -/
def Aiming (chains : ScanTarget → Chain) (target : ScanTarget) (s : World)
    (r : Bool ⊕ ℕ × ℕ) (t : World) : Prop :=
  match r with
  | .inl false => Others s t
  | .inl true => ∃ fromBlock r, Uses chains target s r ∧ r ≤ fromBlock ∧
      s.lastBlock target = some fromBlock ∧ At target s fromBlock 0 t
  | .inr (fromBlock, r) => Uses chains target s r ∧ fromBlock < r ∧
      s.lastBlock target = some fromBlock ∧ At target s fromBlock r t ∧
      (Stale target s → r ≤ head target t)

lemma wp_aim (hmono : Monotone (chains target).ts) :
    (Indexer.aim target (head target s)).wp (calls chains) () (Aiming chains target s) s := by
  rw [Indexer.aim, Prog.wp_bind, Prog.wp_ask]
  refine ⟨trivial, trivial, fun t ht _ a ha => ?_⟩
  rcases a with e | _ | b
  · exact ht
  · exact ht
  have hts : b.timestamp = (chains target).ts (head target s) := ha target rfl
  dsimp only
  rw [Prog.wp_bind]
  refine Indexer.wp_cursor (fun _ => ⟨trivial, trivial⟩) fun fromBlock hcursor => ?_
  rw [(ht target).cursor] at hcursor
  have hstart : At target s fromBlock (s.catchup target).target t := at_of_others ht hcursor
  have hstale : Stale target s ↔
      (t.catchup target).target = 0 ∨ fromBlock ≥ (t.catchup target).target := by
    rw [Stale, hcursor, (ht target).catchup]
    rfl
  have hsought : (Indexer.catchupTarget target b.timestamp fromBlock).wp (calls chains) ()
      (fun r u => (Uses chains target s r ∧ (Stale target s → r ≤ head target u)) ∧
        At target s fromBlock r u) t := by
    rw [Indexer.catchupTarget, Indexer.catchup, Prog.wp_bind, Prog.wp_gets, Prog.wp_ite]
    refine ⟨fun hs => ?_, fun hs => ?_⟩
    · rw [Prog.wp_bind, hts]
      refine Prog.wp_mono ?_ (wp_search hmono ht)
      rintro r u ⟨⟨hfound, hle⟩, hu⟩
      refine ⟨trivial, trivial, ⟨?_, fun _ => ?_⟩,
        (at_of_others hu hcursor).setCatchup { u.catchup target with target := r }⟩
      · rw [Uses, if_pos (hstale.mpr hs)]
        exact hfound
      · rw [Catchup.head, World.heads_setCatchup]
        exact hle
    · have hfresh : ¬Stale target s := fun h => hs (hstale.mp h)
      refine ⟨⟨?_, fun h => absurd h hfresh⟩, ?_⟩
      · rw [Uses, if_neg hfresh, (ht target).catchup]
      · rw [(ht target).catchup]
        exact hstart
  rw [Prog.wp_bind]
  refine Prog.wp_mono ?_ hsought
  rintro r u ⟨⟨huses, hle⟩, hu⟩
  rw [Prog.wp_ite]
  refine ⟨fun hdone => ?_, fun hopen => ?_⟩
  · exact ⟨trivial, trivial, fromBlock, r, huses, hdone, hcursor, hu.setCatchup {}⟩
  · have hgoal : ∀ v, At target s fromBlock r v → head target v = head target u →
        Aiming chains target s (.inr (fromBlock, r)) v := fun v hv hhead =>
      ⟨huses, by omega, hcursor, hv, fun hs => hhead ▸ hle hs⟩
    rw [Indexer.catchup, Prog.wp_bind, Prog.wp_gets]
    by_cases hzero : (u.catchup target).start = 0
    · simp only [hzero, if_true]
      rw [Prog.wp_bind, Indexer.wp_modifyCatchup]
      refine ⟨trivial, trivial, hgoal _ ?_ ?_⟩
      · have hset := hu.setCatchup
          { u.catchup target with start := fromBlock, lastLoggedPct := 0 }
        rwa [hu.aim] at hset
      · rw [Catchup.head, World.heads_setCatchup]
        rfl
    · simp only [hzero, if_false]
      exact hgoal u hu rfl

/-! ### The chunk -/

/-- A handler leaves the chains alone. -/
lemma keeps_framed {p : M α} (hp : Coverage.Framed p) (h : ∀ s t, J s → Others s t → J t) :
    Prog.Keeps (calls chains) () J p :=
  .of_loose hp (fun s t hJ ht _ => h s t hJ ht)
    (fun s t _ hJ hf => ⟨trivial, trivial, trivial, h s t hJ (others_of_frame hf)⟩)
    (fun _ _ _ _ _ => trivial) fun _ _ _ _ _ => trivial

/-- The logs of the chunk are handled or still to come. -/
structure Chunk (target : ScanTarget) (s : World) (fromBlock r : ℕ) (logs l : List Log) (t : World) :
    Prop extends At target s fromBlock r t where
  bound : r ≤ Catchup.head target t
  logs : ∀ log ∈ logs, log ∈ l ∨ .handled target log ∈ t.log

lemma Chunk.others {fromBlock r : ℕ} {logs l : List Log} (h : Chunk target s fromBlock r logs l t)
    (ht : Others t u) : Chunk target s fromBlock r logs l u :=
  ⟨h.toAt.others ht, h.bound.trans (ht target).head,
    fun log hl => (h.logs log hl).imp_right ((ht target).handled log)⟩

lemma wp_handle {fromBlock r : ℕ} {logs l : List Log} {log : Log}
    (h : Chunk target s fromBlock r logs (log :: l) t) :
    (Indexer.handle route target log).wp (calls chains) ()
      (fun _ => Chunk target s fromBlock r logs l) t := by
  have hkeeps : Prog.Keeps (calls chains) () (Chunk target s fromBlock r logs (log :: l))
      (Indexer.dispatch route target log) :=
    keeps_framed (Coverage.framed_dispatch target log) fun _ _ hJ hc => hJ.others hc
  refine Indexer.wp_handle (hkeeps t trivial h) ?_
  rintro u ⟨-, hu⟩
  have hu' := hu.others (others_of_frame (Coverage.frame_note u (o := .handled target log) trivial))
  refine ⟨trivial, trivial, hu'.toAt, hu'.bound, fun x hx => ?_⟩
  rcases hu'.logs x hx with hx | hx
  · rcases List.mem_cons.mp hx with rfl | hx
    · exact .inr List.mem_cons_self
    · exact .inl hx
  · exact .inr hx

/-- The logs from `c₀` up to the cursor are handled, those of its own block once a chunk has been
scanned. -/
def Covered (chains : ScanTarget → Chain) (target : ScanTarget) (c₀ cursor : ℕ) (w : World) :
    Prop :=
  ∀ log ∈ (chains target).logs, ∀ n, log.blockNumber = some n → c₀ ≤ n →
    n < cursor ∨ n = cursor ∧ c₀ < cursor → .handled target log ∈ w.log

/-- What a session keeps of a chain: `c₀` is its first cursor and `b` its basis. -/
structure Good (chains : ScanTarget → Chain) (target : ScanTarget) (c₀ b : ℕ) (w : World) :
    Prop where
  cursor : ∃ c, w.lastBlock target = some c ∧ c₀ ≤ c ∧ Covered chains target c₀ c w
  aim : ¬Stale target w → Aimed (chains target).ts b (w.catchup target).target ∧
    (w.catchup target).target ≤ head target w ∧ b ≤ head target w

/-- The cursor has reached a target that was searched from `b`. -/
def Done (chains : ScanTarget → Chain) (target : ScanTarget) (b : ℕ) (w : World) : Prop :=
  ∃ c r, Aimed (chains target).ts b r ∧ r ≤ c ∧ w.lastBlock target = some c

variable {c₀ b : ℕ}

lemma Good.spares (h : Good chains target c₀ b s) (ht : Spares target s t) :
    Good chains target c₀ b t := by
  obtain ⟨⟨c, hc, hle, hcovered⟩, haim⟩ := h
  refine ⟨⟨c, ht.cursor.trans hc, hle, fun log hl n hn h₀ hpos =>
    ht.handled log (hcovered log hl n hn h₀ hpos)⟩, fun hfresh => ?_⟩
  obtain ⟨ha, hr, hb⟩ := haim fun hs => hfresh (ht.stale.mpr hs)
  rw [ht.catchup]
  exact ⟨ha, hr.trans ht.head, hb.trans ht.head⟩

lemma Done.spares (h : Done chains target b s) (ht : Spares target s t) : Done chains target b t := by
  obtain ⟨c, r, ha, hle, hc⟩ := h
  exact ⟨c, r, ha, hle, ht.cursor.trans hc⟩

lemma Good.aimed (hmono : Monotone (chains target).ts) (h : Good chains target c₀ b s) {r : ℕ}
    (hr : Uses chains target s r) : Aimed (chains target).ts (basis target s b) r := by
  unfold Uses at hr
  unfold basis
  by_cases hs : Stale target s
  · rw [if_pos hs] at hr ⊢
    exact hr.aimed hmono
  · rw [if_neg hs] at hr ⊢
    rw [hr]
    exact (h.aim hs).1

lemma Good.basis_le (h : Good chains target c₀ b s) : basis target s b ≤ head target s := by
  unfold basis
  split
  · exact le_rfl
  · next hs => exact (h.aim hs).2.2

/-- What a call leaves behind. -/
structure Called (chains : ScanTarget → Chain) (target : ScanTarget) (c₀ b : ℕ) (s : World)
    (done : Bool) (t : World) : Prop where
  good : Good chains target c₀ (basis target s b) t
  done : done = true → Done chains target (basis target s b) t
  head : Catchup.head target s ≤ Catchup.head target t
  spares : ∀ target', target' ≠ target → Spares target' s t

/-- The cursor moves to the end of the chunk. -/
lemma called_scanned {fromBlock toBlock r : ℕ} {logs : List Log} (hg : Good chains target c₀ b s)
    (hr : Aimed (chains target).ts (basis target s b) r)
    (hcursor : s.lastBlock target = some fromBlock) (hlt : fromBlock < toBlock)
    (hlogs : ∀ log ∈ (chains target).logs, log.Within fromBlock toBlock → log ∈ logs)
    (h : Chunk target s fromBlock r logs [] t) :
    Called chains target c₀ b s (decide (toBlock ≥ r))
      ((t.updateBlock target fromBlock toBlock logs).setCatchup target
        (Indexer.finishChunk toBlock r
          ((t.updateBlock target fromBlock toBlock logs).catchup target))) := by
  obtain ⟨⟨c, hc, h₀, hcovered⟩, -⟩ := id hg
  obtain rfl : fromBlock = c := Option.some.inj (hcursor.symm.trans hc)
  obtain ⟨hat, hhead, hhandled⟩ := h
  generalize hw : (t.updateBlock target fromBlock toBlock logs).setCatchup target
    (Indexer.finishChunk toBlock r
      ((t.updateBlock target fromBlock toBlock logs).catchup target)) = w
  have hcur : w.lastBlock target = some toBlock := by
    rw [← hw, World.lastBlock_setCatchup, World.lastBlock_updateBlock, if_pos rfl]
  have hlog : w.log = .scanned target fromBlock toBlock logs :: t.log := by
    rw [← hw, World.log_setCatchup, World.log_updateBlock]
  have hheads : head target w = head target t := by
    rw [← hw, head, World.heads_setCatchup]
    rfl
  have hcatchup : (w.catchup target).target = if toBlock ≥ r then 0 else r := by
    have ht : ((t.updateBlock target fromBlock toBlock logs).catchup target).target = r := hat.aim
    rw [← hw, World.catchup_setCatchup, if_pos rfl, Indexer.finishChunk_target, ht]
  refine ⟨⟨⟨toBlock, hcur, by omega, fun log hl n hn hn₀ hpos => ?_⟩, fun hfresh => ?_⟩,
    fun hdone => ⟨toBlock, r, hr, of_decide_eq_true hdone, hcur⟩, hheads ▸ hat.head,
    fun target' hne => ?_⟩
  · rw [hlog]
    refine List.mem_cons_of_mem _ ?_
    by_cases hn' : n < fromBlock
    · exact hat.handled log (hcovered log hl n hn hn₀ (.inl hn'))
    · exact (hhandled log (hlogs log hl ⟨n, hn, by omega, by omega⟩)).resolve_left
        (List.not_mem_nil)
  · rw [Stale, hcatchup, not_or] at hfresh
    rw [hcatchup]
    by_cases hto : toBlock ≥ r
    · rw [if_pos hto] at hfresh
      exact absurd rfl hfresh.1
    · rw [if_neg hto]
      have hb : basis target s b ≤ head target s := hg.basis_le
      exact ⟨hr, hheads ▸ hhead, by rw [hheads]; exact hb.trans hat.head⟩
  · have hs := hat.spares target' hne
    refine ⟨?_, ?_, ?_, fun log hm => ?_⟩
    · rw [← hw, World.lastBlock_setCatchup, World.lastBlock_updateBlock, if_neg hne, hs.cursor]
    · rw [← hw, World.catchup_setCatchup, if_neg hne]
      exact hs.catchup
    · rw [← hw, head, head, World.heads_setCatchup]
      exact hs.head
    · rw [hlog]
      exact List.mem_cons_of_mem _ (hs.handled log hm)

/-- A call that moves no cursor, with its target in memory or none. -/
lemma called_stayed {fromBlock r : ℕ} {done : Bool} (hg : Good chains target c₀ b s)
    (hcursor : s.lastBlock target = some fromBlock) (h : At target s fromBlock r t)
    (hr : r ≠ 0 → fromBlock < r → Aimed (chains target).ts (basis target s b) r ∧
      r ≤ head target t) (hdone : done = true → Done chains target (basis target s b) t) :
    Called chains target c₀ b s done t := by
  obtain ⟨⟨c, hc, h₀, hcovered⟩, -⟩ := id hg
  obtain rfl : fromBlock = c := Option.some.inj (hcursor.symm.trans hc)
  refine ⟨⟨⟨fromBlock, h.cursor, h₀, fun log hl n hn hn₀ hpos =>
    h.handled log (hcovered log hl n hn hn₀ hpos)⟩, fun hfresh => ?_⟩, hdone, h.head, h.spares⟩
  rw [Stale, h.aim, h.cursor, not_or, Option.getD_some] at hfresh
  obtain ⟨ha, hle⟩ := hr hfresh.1 (by omega)
  rw [h.aim]
  exact ⟨ha, hle, hg.basis_le.trans h.head⟩

/-- **The rule of a call.** -/
lemma wp_scanAt (hmono : Monotone (chains target).ts) (hg : Good chains target c₀ b s) :
    (Indexer.scanAt route target (head target s)).wp (calls chains) ()
      (Called chains target c₀ b s) s := by
  rw [Indexer.scanAt, Prog.wp_bind]
  refine Prog.wp_mono ?_ (wp_aim hmono)
  rintro ((_ | _) | ⟨fromBlock, r⟩) t h
  · have hcursor := hg.cursor
    obtain ⟨fromBlock, hcursor, -⟩ := hcursor
    refine called_stayed hg hcursor (at_of_others h hcursor) (fun hne hlt => ?_)
      (fun h => by cases h)
    have hs : ¬Stale target s := by
      rw [Stale, hcursor, not_or, Option.getD_some]
      exact ⟨hne, by omega⟩
    rw [basis, if_neg hs]
    exact ⟨(hg.aim hs).1, (hg.aim hs).2.1.trans (h target).head⟩
  · obtain ⟨fromBlock, r, huses, hle, hcursor, hat⟩ := h
    refine called_stayed hg hcursor hat (fun h => absurd rfl h) fun _ => ?_
    exact ⟨fromBlock, r, hg.aimed hmono huses, hle, hat.cursor⟩
  · obtain ⟨huses, hlt, hcursor, hat, hfound⟩ := h
    have ha := hg.aimed hmono huses
    have hhead : r ≤ head target t := by
      by_cases hs : Stale target s
      · exact hfound hs
      · rw [Uses, if_neg hs] at huses
        rw [huses]
        exact (hg.aim hs).2.1.trans hat.head
    have hto : fromBlock < min (fromBlock + Indexer.chunkSize) r := by
      rw [Indexer.chunkSize]
      omega
    dsimp only
    rw [Indexer.scanChunk, Prog.wp_bind, Prog.wp_ask]
    refine ⟨trivial, trivial, fun u hu _ a hanswer => ?_⟩
    have hat' := hat.others hu
    have hhead' : r ≤ head target u := hhead.trans (hu target).head
    cases a with
    | error e =>
      exact called_stayed hg hcursor hat' (fun _ _ => ⟨ha, hhead'⟩) (fun h => by cases h)
    | ok logs =>
      have hlogs := (hanswer target rfl).2 ((min_le_right _ _).trans hhead')
      dsimp only
      rw [Prog.wp_bind]
      refine Prog.wp_mono ?_ (Prog.wp_forM (J := Chunk target s fromBlock r logs)
        (fun log l v hv => wp_handle hv) ⟨hat', hhead', fun log hl => .inl hl⟩)
      rintro _ v hv
      exact ⟨trivial, trivial, trivial, trivial, called_scanned hg ha hcursor hto hlogs hv⟩

end

/-! ### A session -/

section
variable {s₀ v : World} {B : ScanTarget → ℕ} {d : Bool} {α : Type}

lemma called (hmono : Monotone (chains target).ts) {c₀ b : ℕ} (hg : Good chains target c₀ b s)
    (hrun : (Indexer.scanAt route target (head target s)).Runs Others (Tells chains) s
      (.ok d) t) : Called chains target c₀ b s d t :=
  (Prog.wp_runs_disturbed (wp_scanAt hmono hg) hrun).1 d rfl

/-- A call keeps both chains in order. -/
lemma good_call (hmono : ∀ target, Monotone (chains target).ts) {c₀ : ScanTarget → ℕ}
    (hg : ∀ target, Good chains target (c₀ target) (B target) s)
    (hrun : (Indexer.scanAt route target (head target s)).Runs Others (Tells chains) s
      (.ok d) t) (target' : ScanTarget) :
    Good chains target' (c₀ target') (rebase target s B target') t := by
  have h := called (hmono target) (hg target) hrun
  by_cases he : target' = target
  · subst he
    rw [rebase, Function.update_self]
    exact h.good
  · rw [rebase, Function.update_of_ne he]
    exact (hg target').spares (h.spares target' he)

/-- A session keeps both chains in order. -/
lemma Session.good (hmono : ∀ target, Monotone (chains target).ts)
    (h : Session route chains s₀ B s) (target : ScanTarget) :
    Good chains target ((s₀.lastBlock target).getD 0) (B target) s := by
  induction h generalizing target with
  | boot hcursor hfresh =>
    obtain ⟨c, hc⟩ := Option.ne_none_iff_exists'.mp (hcursor target)
    refine ⟨⟨c, hc, by rw [hc]; exact le_rfl, fun log _ n _ hn hpos => ?_⟩, fun hs => ?_⟩
    · rw [hc, Option.getD_some] at hn hpos
      omega
    · exact absurd (.inl (by rw [hfresh target])) hs
  | wait h ht ih => exact (ih target).spares (ht target)
  | call target' h hrun ih => exact good_call hmono ih hrun target

lemma le_basis {n b : ℕ} (h : n ≤ head target s) (h' : ¬Stale target s → n ≤ b) :
    n ≤ basis target s b := by
  unfold basis
  split
  · exact h
  · next hs => exact h' hs

/-- A basis in use is no older than the session. -/
lemma Session.head_le (hmono : ∀ target, Monotone (chains target).ts)
    (h : Session route chains s₀ B s) (target : ScanTarget) :
    head target s₀ ≤ head target s ∧ (¬Stale target s → head target s₀ ≤ B target) := by
  induction h generalizing target with
  | boot hcursor hfresh =>
    exact ⟨le_rfl, fun hs => absurd (.inl (by rw [hfresh target])) hs⟩
  | wait h ht ih =>
    exact ⟨(ih target).1.trans (ht target).head, fun hs =>
      (ih target).2 fun hstale => hs ((ht target).stale.mpr hstale)⟩
  | @call B s t d target' h hrun ih =>
    have hcalled := called (hmono target') (h.good hmono target') hrun
    by_cases he : target = target'
    · subst he
      rw [rebase, Function.update_self]
      exact ⟨(ih target).1.trans hcalled.head, fun _ => le_basis (ih target).1 (ih target).2⟩
    · have hspares := hcalled.spares target he
      rw [rebase, Function.update_of_ne he]
      exact ⟨(ih target).1.trans hspares.head, fun hs =>
        (ih target).2 fun hstale => hs (hspares.stale.mpr hstale)⟩

lemma Synced.session (h : Synced route chains s₀ B s) : Session route chains s₀ B s := by
  obtain ⟨h, hinbox, ht, houtbox⟩ := h
  exact ((h.call .inbox hinbox).wait ht).call .outbox houtbox

/-- When both chains are done, each cursor has reached its target. -/
lemma Synced.done (hmono : ∀ target, Monotone (chains target).ts)
    (h : Synced route chains s₀ B s) (target : ScanTarget) : Done chains target (B target) s := by
  obtain ⟨h, hinbox, ht, houtbox⟩ := h
  have hin := called (hmono .inbox) (h.good hmono .inbox) hinbox
  have hout := called (hmono .outbox) (((h.call .inbox hinbox).wait ht).good hmono .outbox) houtbox
  cases target with
  | inbox =>
    rw [rebase, Function.update_of_ne (by decide), rebase, Function.update_self]
    exact ((hin.done rfl).spares (ht .inbox)).spares (hout.spares .inbox (by decide))
  | outbox =>
    rw [rebase, Function.update_self]
    exact hout.done rfl

lemma Synced.head_le (hmono : ∀ target, Monotone (chains target).ts)
    (h : Synced route chains s₀ B s) (target : ScanTarget) : head target s₀ ≤ B target := by
  obtain ⟨h, hinbox, ht, houtbox⟩ := h
  cases target with
  | inbox =>
    have hle := h.head_le hmono .inbox
    rw [rebase, Function.update_of_ne (by decide), rebase, Function.update_self]
    exact le_basis hle.1 hle.2
  | outbox =>
    have hle := ((h.call .inbox hinbox).wait ht).head_le hmono .outbox
    rw [rebase, Function.update_self]
    exact le_basis hle.1 hle.2

lemma Synced.handled (hmono : ∀ target, Monotone (chains target).ts)
    (h : Synced route chains s₀ B s) {log : Log} (hl : log ∈ (chains target).logs) {n c : ℕ}
    (hn : log.blockNumber = some n) (hc : s₀.lastBlock target = some c) (hle : c ≤ n)
    (hold : (chains target).ts n < buffered (chains target).ts (B target)) :
    .handled target log ∈ s.log := by
  obtain ⟨⟨cursor, hcursor, -, hcovered⟩, -⟩ := h.session.good hmono target
  obtain ⟨cursor', r, haim, hr, hcursor'⟩ := h.done hmono target
  obtain rfl : cursor = cursor' := Option.some.inj (hcursor.symm.trans hcursor')
  have hlt : n < r := haim.above n hold
  rw [hc] at hcovered
  exact hcovered log hl n hn hle (.inl (hlt.trans_le hr))

/-! ### The runs of the indexer -/

/-- A call of `scan_chain` fails at once, or it goes on from the head it reads. -/
lemma runs_scanChain (h : (Indexer.scanChain route target).Runs Others (Tells chains) s
    (.ok d) t) : (d = false ∧ Others s t) ∨ ∃ u, Others s u ∧
      (Indexer.scanAt route target (head target u)).Runs Others (Tells chains) u (.ok d) t := by
  rw [Indexer.scanChain_eq] at h
  obtain ⟨u, hu, a, ha, h⟩ := h
  cases a with
  | error e =>
    obtain ⟨hd, rfl⟩ := h
    cases hd
    exact .inl ⟨rfl, hu⟩
  | ok currentBlock =>
    obtain rfl : currentBlock = head target u := ha
    exact .inr ⟨u, hu, h⟩

/-- A turn of the loop goes on with the session. -/
lemma Session.scanOnce (h : Session route chains s₀ B s)
    (hrun : (Indexer.scanOnce route).Runs Others (Tells chains) s (.ok d) t) :
    (∃ B', Session route chains s₀ B' t) ∧ (d = true → ∃ B', Synced route chains s₀ B' t) := by
  rw [Indexer.scanOnce, Prog.runs_bind] at hrun
  obtain ⟨inboxDone, u, hinbox, hrun⟩ | ⟨e, he, -⟩ := hrun
  swap
  · cases he
  rw [Prog.runs_bind] at hrun
  obtain ⟨outboxDone, v, houtbox, hrun⟩ | ⟨e, he, -⟩ := hrun
  swap
  · cases he
  obtain ⟨hd, rfl⟩ := hrun
  obtain rfl : d = (inboxDone && outboxDone) := Except.ok.inj hd
  rcases runs_scanChain hinbox with ⟨rfl, hw⟩ | ⟨w, hw, hinbox⟩
  · rcases runs_scanChain houtbox with ⟨rfl, hx⟩ | ⟨x, hx, houtbox⟩
    · exact ⟨⟨B, (h.wait hw).wait hx⟩, fun hd => by cases hd⟩
    · exact ⟨⟨_, ((h.wait hw).wait hx).call .outbox houtbox⟩, fun hd => by cases hd⟩
  · rcases runs_scanChain houtbox with ⟨rfl, hx⟩ | ⟨x, hx, houtbox⟩
    · refine ⟨⟨_, ((h.wait hw).call .inbox hinbox).wait hx⟩, fun hd => ?_⟩
      rw [Bool.and_false] at hd
      cases hd
    · refine ⟨⟨_, (((h.wait hw).call .inbox hinbox).wait hx).call .outbox houtbox⟩, fun hd => ?_⟩
      obtain ⟨rfl, rfl⟩ := Bool.and_eq_true_iff.mp hd
      exact ⟨_, .scanned (h.wait hw) hinbox hx houtbox⟩

/-- A sleep goes on with the session. -/
lemma Session.sleep {m : ℕ} (h : Session route chains s₀ B s)
    (hrun : (VeaValidator.sleep m).Runs Others (Tells chains) s (.ok ()) t) :
    Session route chains s₀ B t := by
  obtain ⟨u, hu, a, -, -, rfl⟩ := hrun
  exact h.wait hu

/-- A scan leaves the flag alone. -/
lemma onSync_scanOnce (hwrite : (Indexer.scanOnce route).Writes Others (Tells chains) s u v) :
    v.schedule.onSync = u.schedule.onSync := by
  let P : Protocol Unit World Panic Query.Answer :=
    .loose (fun s t => t.schedule.onSync = s.schedule.onSync) (fun _ _ => True) fun _ _ => True
  have hp : Patient P () fun _ => True :=
    ⟨fun _ _ _ _ _ => trivial, fun _ _ _ _ _ => trivial, fun _ _ _ _ _ => trivial⟩
  have hcatchup : ∀ target f, Prog.Keeps P () (fun _ => True) (Indexer.modifyCatchup target f) :=
    fun target f w _ _ => ⟨by cases target <;> rfl, trivial, trivial, trivial⟩
  have hblock : ∀ target a b logs, Prog.Keeps P () (fun _ => True)
      (TaskStore.updateBlock target a b logs) := by
    intro target a b logs w _ _
    refine ⟨?_, trivial, trivial, trivial⟩
    cases target <;> rfl
  have hhandle : ∀ target log, Prog.Keeps P () (fun _ => True) (Indexer.handle route target log) := by
    intro target log w _ _
    have hdispatch : Prog.Keeps P () (fun _ => True) (Indexer.dispatch route target log) :=
      .of_loose (changing_dispatch target log) (fun _ _ _ _ _ => trivial)
        (fun _ _ _ _ h => ⟨h.onSync, trivial, trivial, trivial⟩) (fun _ _ _ _ _ => trivial)
        fun _ _ _ _ _ => trivial
    exact Indexer.wp_handle (hdispatch w trivial trivial) fun x hx => ⟨rfl, trivial, hx⟩
  have hscan : ∀ target, Prog.Keeps P () (fun _ => True) (Indexer.scanChain route target) :=
    fun target => Indexer.keeps_scanChain hp (fun _ _ _ => trivial) (hcatchup target)
      (hblock target) (hhandle target)
  exact hwrite.of_loose (Prog.Keeps.bind (hscan .inbox) fun _ =>
    Prog.Keeps.bind (hscan .outbox) fun _ => Prog.Keeps.pure)

/-- The loop sets the flag only behind a turn that has found both chains done. -/
lemma Session.synced {n : ℕ} (h : Session route chains s₀ B s)
    (hwrite : (Indexer.run route n).Writes Others (Tells chains) s u v)
    (hoff : u.schedule.onSync = false) (hon : v.schedule.onSync = true) :
    ∃ B', Synced route chains s₀ B' u := by
  induction n generalizing B s with
  | zero => exact hwrite.elim
  | succ n ih =>
    -- What comes after the pause of a turn is a run that is one turn shorter.
    have hpause : ∀ {B' w m}, Session route chains s₀ B' w →
        (do
          VeaValidator.sleep m
          Indexer.run route n : M Unit).Writes Others (Tells chains) w u v →
        ∃ B', Synced route chains s₀ B' u := by
      intro B' w m hw hrest
      rcases Prog.writes_bind.mp hrest with hsleep | ⟨⟨⟩, x, hsleep, hloop⟩
      · obtain ⟨_, _, _, _, hnone⟩ := hsleep
        exact hnone.elim
      · exact ih (hw.sleep hsleep) hloop
    rw [Indexer.run] at hwrite
    rcases Prog.writes_bind.mp hwrite with hscan | ⟨d, w, hscan, hrest⟩
    · rw [onSync_scanOnce hscan, hoff] at hon
      cases hon
    obtain ⟨⟨B', hw⟩, hdone⟩ := h.scanOnce hscan
    cases d with
    | false => exact hpause hw hrest
    | true =>
      rcases Prog.writes_bind.mp hrest with hread | ⟨onSync, x, ⟨-, rfl⟩, hrest⟩
      · exact hread.elim
      cases onSync with
      | true => exact hpause hw hrest
      | false =>
        rcases hrest with ⟨rfl, -⟩ | hidle
        · exact hdone rfl
        · exact hpause (hw.wait (others_of_frame (Coverage.frame_setOnSync x true))) hidle

/-- **What `on_sync` says.** Whenever the loop sets the flag, every log from the first cursors on is
handled whose block was older than the buffer at the head from which the target of its chain had
been searched. -/
theorem sync_truthful (route : Route) {chains : ScanTarget → Chain}
    (hmono : ∀ target, Monotone (chains target).ts) {s₀ u v : World}
    (hcursor : ∀ target, s₀.lastBlock target ≠ none) (hfresh : ∀ target, s₀.catchup target = {})
    {turns : ℕ} (hwrite : (Indexer.run route turns).Writes Others (Tells chains) s₀ u v)
    (hoff : u.schedule.onSync = false) (hon : v.schedule.onSync = true) :
    ∃ B, Synced route chains s₀ B u ∧ ∀ target, head target s₀ ≤ B target ∧
      ∀ log ∈ (chains target).logs, ∀ n cursor, log.blockNumber = some n →
        s₀.lastBlock target = some cursor → cursor ≤ n →
        (chains target).ts n < (chains target).ts (B target) - Indexer.finalityBufferSecs →
        .handled target log ∈ u.log := by
  have hboot : Session route chains s₀ (fun _ => 0) s₀ := .boot hcursor hfresh
  obtain ⟨B, hu⟩ := hboot.synced hwrite hoff hon
  exact ⟨B, hu, fun target => ⟨hu.head_le hmono target, fun log hl n cursor hn hc hle hold =>
    hu.handled hmono hl hn hc hle hold⟩⟩

end

/-! ### A head that moves on -/

/-- Block `n` is at time `10 n`, and the outbox has claims in its blocks 5 and 500. -/
def sampleChains : ScanTarget → Chain
  | .inbox => ⟨(10 * ·), []⟩
  | .outbox => ⟨(10 * ·), [Sample.claimed 5 1 5, Sample.claimed 6 1 500]⟩

lemma monotone_sampleChains (target : ScanTarget) : Monotone (sampleChains target).ts := by
  cases target <;> exact fun _ _ h => Nat.mul_le_mul_left 10 h

/-- Nodes at the head `h`; the one of the outbox reads no logs when it is down. -/
def sampleNode (h : ℕ) (down : Bool) : (q : Query) → q.Answer
  | .blockNumber _ => .ok h
  | .blockByNumber _ .latest => .ok (some ⟨h, 10 * h⟩)
  | .logs .outbox f =>
    if down then .error "timeout"
    else .ok ((sampleChains .outbox).logs.filter fun log => log.Within f.fromBlock f.toBlock)
  | .logs _ _ => .ok []
  | q => Sample.node 0 0 q

lemma tells_sampleNode {h : ℕ} {down : Bool} (hs : s.heads = ⟨h, h, h⟩) (q : Query) :
    Tells sampleChains q (sampleNode h down q) s := by
  have hhead : ∀ p, s.heads.get p = h := by
    intro p
    rw [hs]
    cases p <;> rfl
  cases q with
  | blockNumber p => exact (hhead p).symm
  | blockByNumber p n =>
    cases n with
    | finalized => trivial
    | latest =>
      intro target _
      refine ⟨(hhead p).symm, ?_⟩
      cases target <;> rfl
    | number n =>
      intro target _
      cases target <;> rfl
  | logs p f =>
    cases p with
    | inbox =>
      rintro (_ | _) hp
      · exact ⟨fun log hl => absurd hl List.not_mem_nil, fun _ log hl => absurd hl List.not_mem_nil⟩
      · cases hp
    | outbox =>
      cases down with
      | true => trivial
      | false =>
        rintro (_ | _) hp
        · cases hp
        · refine ⟨fun log hl => ?_, fun _ log hl hw => List.mem_filter.mpr ⟨hl, decide_eq_true hw⟩⟩
          exact ⟨(List.mem_filter.mp hl).1, of_decide_eq_true (List.mem_filter.mp hl).2⟩
    | ethereum =>
      rintro (_ | _) hp
      · cases hp
      · cases hp
  | _ => trivial

/-- The outbox is still to be scanned from its first block on. -/
def behind : World where
  schedule := { inboxLastBlock := some 130, outboxLastBlock := some 0 }
  heads := ⟨130, 130, 130⟩

/-- The first turn finds a target at block 10, but no logs; then the heads move on. -/
def moved : World :=
  { ((Indexer.scanOnce Sample.route).eval (sampleNode 130 true) behind).2 with
    heads := ⟨1000, 1000, 1000⟩ }

/-- The second turn reaches that target. -/
def caughtUp : World := ((Indexer.scanOnce Sample.route).eval (sampleNode 1000 false) moved).2

lemma runs_first : (Indexer.scanOnce Sample.route).Runs Others (Tells sampleChains) behind
    (.ok false) ((Indexer.scanOnce Sample.route).eval (sampleNode 130 true) behind).2 := by
  have hscan : (Indexer.scanOnce Sample.route).Runs Others (Tells sampleChains) behind
      ((Indexer.scanOnce Sample.route).eval (sampleNode 130 true) behind).1
      ((Indexer.scanOnce Sample.route).eval (sampleNode 130 true) behind).2 :=
    Prog.runs_eval_visits (p := fun w => w.heads = ⟨130, 130, 130⟩) Others.refl
      (fun q w hw => tells_sampleNode (of_decide_eq_true hw) q) (by decide +kernel)
  have hfalse : ((Indexer.scanOnce Sample.route).eval (sampleNode 130 true) behind).1 =
      .ok false := by
    decide +kernel
  rwa [hfalse] at hscan

lemma runs_pause : (sleep Indexer.catchupSleep).Runs Others (Tells sampleChains)
    ((Indexer.scanOnce Sample.route).eval (sampleNode 130 true) behind).2 (.ok ()) moved := by
  refine ⟨moved, fun target => ⟨rfl, rfl, ?_, fun _ hm => hm⟩, .ok (), trivial, rfl, rfl⟩
  cases target <;> decide +kernel

lemma runs_second : (Indexer.scanOnce Sample.route).Runs Others (Tells sampleChains) moved
    (.ok true) caughtUp := by
  have hscan : (Indexer.scanOnce Sample.route).Runs Others (Tells sampleChains) moved
      ((Indexer.scanOnce Sample.route).eval (sampleNode 1000 false) moved).1 caughtUp :=
    Prog.runs_eval_visits (p := fun w => w.heads = ⟨1000, 1000, 1000⟩) Others.refl
      (fun q w hw => tells_sampleNode (of_decide_eq_true hw) q) (by decide +kernel)
  have htrue : ((Indexer.scanOnce Sample.route).eval (sampleNode 1000 false) moved).1 =
      .ok true := by
    decide +kernel
  rwa [htrue] at hscan

/-- The second turn sets the flag. -/
lemma writes_caughtUp : (Indexer.run Sample.route 2).Writes Others (Tells sampleChains) behind
    caughtUp (caughtUp.setOnSync true) := by
  have hoff : caughtUp.schedule.onSync = false := by decide +kernel
  have hset : (Indexer.run Sample.route 1).Writes Others (Tells sampleChains) moved caughtUp
      (caughtUp.setOnSync true) := by
    refine Prog.writes_bind.mpr (.inr ⟨true, caughtUp, runs_second, ?_⟩)
    refine Prog.writes_bind.mpr (.inr ⟨false, caughtUp, ⟨congrArg Except.ok hoff.symm, rfl⟩, ?_⟩)
    exact .inl ⟨rfl, rfl⟩
  exact Prog.writes_bind.mpr (.inr ⟨false, _, runs_first,
    Prog.writes_bind.mpr (.inr ⟨(), moved, runs_pause, hset⟩)⟩)

theorem sync_truthful_sample : (∃ B, Synced Sample.route sampleChains behind B caughtUp) ∧
    .handled .outbox (Sample.claimed 5 1 5) ∈ caughtUp.log := by
  obtain ⟨B, hB, hhandled⟩ := sync_truthful Sample.route monotone_sampleChains
    (by rintro (_ | _) <;> decide) (by rintro (_ | _) <;> rfl) writes_caughtUp (by decide +kernel) rfl
  obtain ⟨hle, hhandled⟩ := hhandled .outbox
  have hle' : 130 ≤ B .outbox := hle
  refine ⟨⟨B, hB⟩, hhandled _ List.mem_cons_self 5 0 rfl rfl (by decide) ?_⟩
  show 10 * 5 < 10 * B .outbox - 1200
  omega

/-- The flag is set after a turn that has found both chains done with the head of the outbox at
10000 seconds, and the log of its block 500 is not handled. -/
theorem synced_behind : (∀ target, Monotone (sampleChains target).ts) ∧
    (∀ target, behind.lastBlock target ≠ none) ∧ (∀ target, behind.catchup target = {}) ∧
    (Indexer.run Sample.route 2).Writes Others (Tells sampleChains) behind caughtUp
      (caughtUp.setOnSync true) ∧ caughtUp.schedule.onSync = false ∧
    (Indexer.scanOnce Sample.route).Runs Others (Tells sampleChains) moved (.ok true) caughtUp ∧
    head .outbox moved = 1000 ∧ head .outbox caughtUp = 1000 ∧
    Sample.claimed 6 1 500 ∈ (sampleChains .outbox).logs ∧
    (sampleChains .outbox).ts 500 < (sampleChains .outbox).ts 1000 - Indexer.finalityBufferSecs ∧
    .handled .outbox (Sample.claimed 6 1 500) ∉ caughtUp.log := by
  refine ⟨monotone_sampleChains, by rintro (_ | _) <;> decide, by rintro (_ | _) <;> rfl,
    writes_caughtUp, by decide +kernel, runs_second, rfl, by decide +kernel,
    List.mem_cons_of_mem _ List.mem_cons_self, by decide, by decide +kernel⟩

end Catchup

end VeaValidator
