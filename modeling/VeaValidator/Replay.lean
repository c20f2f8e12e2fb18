import VeaValidator.Scanning
import VeaValidator.Turns
import VeaValidator.Writes

/-!
A stop in the middle of a chunk.

A handler writes the claims file and the schedule file one after the other, and the cursor moves
when the whole chunk has been handled. After a stop the logs from the cursor on are handled again.
That is harmless for the later logs of an epoch, which overwrite what they have written. A `Claimed`
log asks the queue whether it has been handled, and stores its claim before its task: when the route
stops in between, the log is handled again with its claim in the file and no task to tell.
-/

namespace VeaValidator

open Coop

namespace Replay

variable {route : Route} {o : (q : Query) → q.Answer} {chain : List Log} {s t t' f f' : World}
  {e a b toBlock : ℕ}

/-! ### The chain -/

/-- The logs of the outbox, of which the nodes know what a handler asks for: sorted by their blocks,
each epoch claimed once and before anything else happens to it. -/
structure History (o : (q : Query) → q.Answer) (chain : List Log) : Prop where
  known : ∀ log ∈ chain, deed? o log ≠ none
  sorted : chain.Pairwise fun x y => x.blockNumber.getD 0 ≤ y.blockNumber.getD 0
  claimed : chain.Pairwise fun x y => ∀ d d', deed? o x = some d → deed? o y = some d' →
    d.epoch = d'.epoch → ¬d'.Claims

/-- The logs of the blocks from `a` to `toBlock`. -/
def logsFrom (chain : List Log) (a toBlock : ℕ) : List Log :=
  chain.filter fun log => log.Within a toBlock

/-- The logs of these blocks that are in the ones from `a` or in the ones from `b`, but not in
both. -/
def between (chain : List Log) (a b toBlock : ℕ) : List Log :=
  (logsFrom chain (min a b) toBlock).filter fun log => !decide (log.Within (max a b) toBlock)

lemma logsFrom_min (h : History o chain) :
    logsFrom chain (min a b) toBlock = between chain a b toBlock ++ logsFrom chain (max a b) toBlock := by
  have hfront : (logsFrom chain (min a b) toBlock).Pairwise fun x y =>
      (!decide (y.Within (max a b) toBlock)) = true → (!decide (x.Within (max a b) toBlock)) = true := by
    refine (h.sorted.filter _).imp_of_mem fun {x y} hx hy hle hout => ?_
    obtain ⟨n, hn, -, hnto⟩ : x.Within (min a b) toBlock := by simpa using (List.mem_filter.mp hx).2
    obtain ⟨m, hm, -, hmto⟩ : y.Within (min a b) toBlock := by simpa using (List.mem_filter.mp hy).2
    have hlt : ¬max a b ≤ m := fun hle => by
      have hin : y.Within (max a b) toBlock := ⟨m, hm, hle, hmto⟩
      simp [hin] at hout
    rw [hn, hm, Option.getD_some, Option.getD_some] at hle
    have hnot : ¬x.Within (max a b) toBlock := by
      rintro ⟨n', hn', hle', -⟩
      obtain rfl : n = n' := Option.some.inj (hn.symm.trans hn')
      omega
    simpa using hnot
  have hback : (logsFrom chain (min a b) toBlock).filter (fun log =>
      !(!decide (log.Within (max a b) toBlock))) = logsFrom chain (max a b) toBlock := by
    unfold logsFrom
    rw [List.filter_filter]
    refine List.filter_congr fun log _ => ?_
    rw [Bool.not_not, ← Bool.decide_and, decide_eq_decide]
    refine ⟨fun h => h.1, fun h => ⟨h, ?_⟩⟩
    obtain ⟨n, hn, hle, hto⟩ := h
    exact ⟨n, hn, by omega, hto⟩
  rw [← filter_append_filter_not hfront, hback, between]

lemma between_self : deeds o e (between chain a a toBlock) = [] := by
  have hnil : between chain a a toBlock = [] := by
    rw [between, min_self, max_self]
    refine List.filter_eq_nil_iff.mpr fun log hl => ?_
    have hin : log.Within a toBlock := by simpa using (List.mem_filter.mp hl).2
    simp [hin]
  rw [hnil]
  rfl

/-- The two runs: one of the lists is the other one with the logs in between before it. -/
lemma deeds_lists (h : History o chain) (e : ℕ) :
    (deeds o e (logsFrom chain a toBlock) = deeds o e (logsFrom chain (max a b) toBlock) ∧
      deeds o e (logsFrom chain b toBlock) = deeds o e (between chain a b toBlock) ++
        deeds o e (logsFrom chain (max a b) toBlock)) ∨
    (deeds o e (logsFrom chain a toBlock) = deeds o e (between chain a b toBlock) ++
        deeds o e (logsFrom chain (max a b) toBlock) ∧
      deeds o e (logsFrom chain b toBlock) = deeds o e (logsFrom chain (max a b) toBlock)) := by
  have hsplit : deeds o e (logsFrom chain (min a b) toBlock) =
      deeds o e (between chain a b toBlock) ++ deeds o e (logsFrom chain (max a b) toBlock) := by
    rw [logsFrom_min h, deeds_append]
  rcases le_total a b with hle | hle
  · rw [min_eq_left hle] at hsplit
    exact .inr ⟨hsplit, by rw [max_eq_right hle]⟩
  · rw [min_eq_right hle] at hsplit
    exact .inl ⟨by rw [max_eq_left hle], hsplit⟩

lemma deeds_claimed (h : History o chain) (e : ℕ) :
    (deeds o e (between chain a b toBlock) ++ deeds o e (logsFrom chain (max a b) toBlock)).Pairwise
      fun _ y => ¬y.Claims := by
  rw [← deeds_append, ← logsFrom_min h, deeds]
  have hpair : ((logsFrom chain (min a b) toBlock).filterMap (deed? o)).Pairwise fun d d' =>
      d.epoch = d'.epoch → ¬d'.Claims :=
    List.pairwise_filterMap.mpr ((h.claimed.filter _).imp fun {x y} hxy d hd d' hd' => hxy d d' hd hd')
  refine (hpair.filter _).imp_of_mem fun {d d'} hd hd' h => h ?_
  have he : d.epoch = e := by simpa using (List.mem_filter.mp hd).2
  have he' : d'.epoch = e := by simpa using (List.mem_filter.mp hd').2
  rw [he, he']

lemma known_logsFrom (h : History o chain) : ∀ log ∈ logsFrom chain a toBlock, deed? o log ≠ none :=
  fun log hl => h.known log (List.mem_filter.mp hl).1

/-! ### The chunk, the stop and the restart -/

/-- What `scan_chain` does with the logs from the cursor on, up to the end of its chunk. -/
def dispatchFrom (route : Route) (chain : List Log) (toBlock : ℕ) : M Unit := do
  let fromBlock ← Indexer.cursor .outbox
  forM (logsFrom chain fromBlock toBlock) (Indexer.handle route .outbox)
  TaskStore.updateBlock .outbox fromBlock toBlock (logsFrom chain fromBlock toBlock)

lemma like_dispatchFrom {fromBlock : ℕ} (hfrom : s.lastBlock .outbox = some fromBlock) :
    Prog.Like o s (dispatchFrom route chain toBlock) (do
      forM (logsFrom chain fromBlock toBlock) (Indexer.handle route .outbox)
      TaskStore.updateBlock .outbox fromBlock toBlock (logsFrom chain fromBlock toBlock)) := by
  have hcursor : Prog.Like o s (Indexer.cursor .outbox) (pure fromBlock) := by
    refine Prog.Like.trans Prog.Like.gets_bind ?_
    rw [hfrom]
    exact .refl
  exact hcursor.bind

/-- A chunk of a scan is such a run, when the node knows the logs. -/
lemma like_scanChunk {fromBlock targetBlock : ℕ} (hfrom : s.lastBlock .outbox = some fromBlock)
    (hto : toBlock = min (fromBlock + Indexer.chunkSize) targetBlock)
    (hlogs : o (.logs .outbox (Indexer.chunkFilter route .outbox fromBlock toBlock)) =
      .ok (logsFrom chain fromBlock toBlock)) :
    Prog.Like o s (Indexer.scanChunk route .outbox fromBlock targetBlock) (do
      dispatchFrom route chain toBlock
      Indexer.modifyCatchup .outbox (Indexer.finishChunk toBlock targetBlock)
      pure (decide (toBlock ≥ targetBlock))) := by
  subst hto
  let toBlock := min (fromBlock + Indexer.chunkSize) targetBlock
  have hscan : Prog.Like o s (Indexer.scanChunk route .outbox fromBlock targetBlock) (do
      forM (logsFrom chain fromBlock toBlock) (Indexer.handle route .outbox)
      TaskStore.updateBlock .outbox fromBlock toBlock (logsFrom chain fromBlock toBlock)
      Indexer.modifyCatchup .outbox (Indexer.finishChunk toBlock targetBlock)
      pure (decide (toBlock ≥ targetBlock))) := by
    have hlogs' : o (.logs (Indexer.provider .outbox)
        { address := Indexer.address route .outbox, eventSignature := Indexer.eventSigs .outbox,
          fromBlock, toBlock := min (fromBlock + Indexer.chunkSize) targetBlock }) =
        .ok (logsFrom chain fromBlock toBlock) := hlogs
    rw [Indexer.scanChunk]
    refine Prog.Like.trans Prog.Like.ask_bind ?_
    rw [hlogs']
    exact .refl
  refine hscan.trans (Prog.Like.symm ?_)
  have hlike : Prog.Like o s (dispatchFrom route chain toBlock) _ := like_dispatchFrom hfrom
  have hrest := hlike.bind (g := fun _ => do
    Indexer.modifyCatchup .outbox (Indexer.finishChunk toBlock targetBlock)
    pure (decide (toBlock ≥ targetBlock)))
  rw [bind_assoc] at hrest
  exact hrest

/-- The files after a stop, before the route is initialised again: its memory is gone. -/
def forget (w : World) : World := { w with inboxCatchup := {}, outboxCatchup := {} }

/-- The route is started again on the files of `t` and has come through its initialisation, with any
answers. -/
def Restarts (route : Route) (t t' : World) : Prop :=
  (Indexer.initializeIndexer route).Runs (fun u v => v = u) (fun _ _ _ => True) (forget t) (.ok ()) t'

/-- The same claims, and the same set of tasks. -/
def SameFiles (f f' : World) : Prop :=
  (∀ e, f'.entries e = f.entries e) ∧
    ∀ task, task ∈ f'.schedule.tasks ↔ task ∈ f.schedule.tasks

/-- The initialisation leaves the claims and the tasks as they are. -/
lemma restarts_files (h : Restarts route t t') :
    t'.claims = t.claims ∧ t'.schedule.tasks = t.schedule.tasks := by
  let P : Protocol Unit World Panic Query.Answer :=
    .disturbed (fun u v => v = u) (fun _ _ _ => True) fun _ _ => True
  let J : World → Prop := fun u => u.claims = t.claims ∧ u.schedule.tasks = t.schedule.tasks
  have hp : Patient P () J := {
    rely := fun u v hu (hv : v = u) _ => hv ▸ hu
    issue := fun _ _ _ _ _ => trivial
    fault := fun _ _ _ _ _ => trivial }
  have hwp : (Indexer.initializeIndexer route).wp P () (fun _ => J) (forget t) := by
    refine Indexer.wp_initializeIndexer hp (B := fun _ _ => True) ⟨trivial, trivial⟩ trivial
      ⟨rfl, rfl⟩ (fun _ _ _ _ _ => trivial) (fun _ _ _ _ _ _ => trivial)
      (fun _ _ u _ hu => hu) fun now u _ _ hu => ?_
    have hfind : ∀ provider, Prog.Keeps P () J
        (findBlockByTimestamp provider (now - route.settings.syncLookbackSecs)) :=
      fun provider => hp.keeps (quiet_findBlockByTimestamp provider _)
    have hsync : ∀ a b, Prog.Keeps P () J
        (TaskStore.initializeSync (now - route.settings.syncLookbackSecs) a b) :=
      fun a b v _ hv => ⟨trivial, trivial, trivial, hv⟩
    have hkeeps := (hfind .inbox).bind fun a => (hfind .outbox).bind fun b => hsync a b
    exact Prog.wp_mono (fun _ v hv => hv.2) (hkeeps u trivial hu)
  exact (Prog.wp_runs_disturbed hwp h).1 () rfl

lemma Restarts.page (h : Restarts route t t') (e : ℕ) : t'.page e = t.page e := by
  obtain ⟨hclaims, htasks⟩ := restarts_files h
  refine page_congr (by rw [World.claim?, World.claim?, hclaims]) fun task _ => by rw [htasks]

lemma Restarts.distinct (h : Restarts route t t') (ht : Distinct t) : Distinct t' := by
  rw [Distinct, (restarts_files h).1]
  exact ht

/-! ### Files and pages -/

lemma claim?_of_page (h : f'.page e = f.page e) : f'.claim? e = f.claim? e := by
  have hopening : (f'.claim? e).map ClaimData.opening = (f.claim? e).map ClaimData.opening :=
    congrArg Page.opening h
  have hverification : ((f'.claim? e).map fun c => (c.timestampVerification,
      c.blocknumberVerification)).getD (0, 0) = ((f.claim? e).map fun c =>
        (c.timestampVerification, c.blocknumberVerification)).getD (0, 0) :=
    congrArg (Page.slots · .verification) h
  have hchallenger : ((f'.claim? e).map ClaimData.challenger).getD 0 =
      ((f.claim? e).map ClaimData.challenger).getD 0 := congrArg (Page.slots · .challenger) h
  have hhonest : ((f'.claim? e).map ClaimData.honest).getD "None" =
      ((f.claim? e).map ClaimData.honest).getD "None" := congrArg (Page.slots · .honest) h
  cases hc' : f'.claim? e with
  | none =>
    cases hc : f.claim? e with
    | none => rfl
    | some c =>
      rw [hc', hc] at hopening
      cases hopening
  | some c' =>
    cases hc : f.claim? e with
    | none =>
      rw [hc', hc] at hopening
      cases hopening
    | some c =>
      rw [hc', hc] at hopening hverification hchallenger hhonest
      obtain ⟨e', root', claimer', claimed', ts', block', honest', challenger'⟩ := c'
      obtain ⟨e, root, claimer, claimed, ts, block, honest, challenger⟩ := c
      simp only [Option.map_some, Option.getD_some, ClaimData.opening, ClaimData.fresh,
        Option.some.injEq, ClaimData.mk.injEq, Prod.mk.injEq]
        at hopening hverification hchallenger hhonest ⊢
      obtain ⟨he, hroot, hclaimer, hclaimed, -⟩ := hopening
      exact ⟨he, hroot, hclaimer, hclaimed, hverification.1, hverification.2, hhonest, hchallenger⟩

/-- The files are the same when their pages are. -/
lemma sameFiles_iff (hf : Distinct f) (hf' : Distinct f') :
    SameFiles f f' ↔ ∀ e, f'.page e = f.page e := by
  have hentries : ∀ e, (f'.entries e = f.entries e ↔ f'.claim? e = f.claim? e) := by
    intro e
    constructor
    · intro h
      rw [World.claim?_eq_head?_entries, h, World.claim?_eq_head?_entries]
    · intro h
      have hleft : f'.entries e = (f'.claim? e).toList := Keyed.entries_eq_toList hf'
      have hright : f.entries e = (f.claim? e).toList := Keyed.entries_eq_toList hf
      rw [hleft, hright, h]
  constructor
  · exact fun h e => page_congr ((hentries e).mp (h.1 e)) fun task _ => h.2 task
  · intro h
    refine ⟨fun e => (hentries e).mpr (claim?_of_page (h e)), fun task => ?_⟩
    have hslot : (f'.page task.epoch).slots (.queued task) =
        (f.page task.epoch).slots (.queued task) := by rw [h task.epoch]
    exact ⟨fun hm => ((of_eq_true (hslot.symm.trans (eq_true ⟨hm, rfl⟩)))).1,
      fun hm => (of_eq_true (hslot.trans (eq_true ⟨hm, rfl⟩))).1⟩

/-! ### A chunk that is dispatched again -/

lemma page_updateBlock {target : ScanTarget} {logs : List Log} :
    (s.updateBlock target a b logs).page e = s.page e := by
  refine page_congr rfl fun task _ => ?_
  cases target <;> exact Iff.rfl

lemma eval_dispatchFrom (hfrom : s.lastBlock .outbox = some a) :
    (dispatchFrom route chain toBlock).eval o s = (.ok (), f) ↔
      ∃ u, Prog.eval o (forM (logsFrom chain a toBlock) (Indexer.handle route .outbox)) s =
        (.ok (), u) ∧ u.updateBlock .outbox a toBlock (logsFrom chain a toBlock) = f := by
  rw [(like_dispatchFrom hfrom).1, Prog.eval_bind]
  rcases Prog.eval o (forM (logsFrom chain a toBlock) (Indexer.handle route .outbox)) s with
    ⟨err | ⟨⟩, u⟩
  · constructor
    · intro h
      cases h
    · rintro ⟨v, hv, -⟩
      cases hv
  · constructor
    · exact fun h => ⟨u, rfl, congrArg Prod.snd h⟩
    · rintro ⟨v, hv, rfl⟩
      cases hv
      rfl

/-- A run of a chunk turns the page of every epoch. -/
lemma turns_of_dispatch (h : History o chain) (hs : Distinct s)
    (hfrom : s.lastBlock .outbox = some a)
    (hrun : (dispatchFrom route chain toBlock).eval o s = (.ok (), f)) :
    Distinct f ∧ ∀ e, Deed.turns route (graceEnd route s) (deeds o e (logsFrom chain a toBlock))
      (s.page e) = some (f.page e) := by
  obtain ⟨u, hu, rfl⟩ := (eval_dispatchFrom hfrom).mp hrun
  obtain ⟨hdistinct, hpages⟩ := turns_of_eval (known_logsFrom h) hs hu
  refine ⟨hdistinct, fun e => ?_⟩
  rw [page_updateBlock]
  exact hpages e

lemma dispatch_of_turns (h : History o chain) (hs : Distinct s)
    (hfrom : s.lastBlock .outbox = some a)
    (hturns : ∀ e, Deed.turns route (graceEnd route s) (deeds o e (logsFrom chain a toBlock))
      (s.page e) ≠ none) :
    ∃ f, (dispatchFrom route chain toBlock).eval o s = (.ok (), f) := by
  obtain ⟨u, hu⟩ := eval_of_turns (known_logsFrom h) hs hturns
  exact ⟨_, (eval_dispatchFrom hfrom).mpr ⟨u, hu, rfl⟩⟩

/-- The stores a chunk can be stopped in. -/
lemma halts_of_dispatch (h : History o chain) (hs : Distinct s)
    (hfrom : s.lastBlock .outbox = some a)
    (hrun : (dispatchFrom route chain toBlock).eval o s = (.ok (), f))
    (hstop : t ∈ (dispatchFrom route chain toBlock).stops o s) :
    Distinct t ∧ ∀ e, Deed.Halts route (graceEnd route s) (deeds o e (logsFrom chain a toBlock))
      (s.page e) (t.page e) := by
  obtain ⟨u, hu, -⟩ := (eval_dispatchFrom hfrom).mp hrun
  have hok : (Prog.eval o (forM (logsFrom chain a toBlock) (Indexer.handle route .outbox)) s).1 =
      .ok () := by rw [hu]
  have hhalts : ∀ t ∈ Prog.stops o (forM (logsFrom chain a toBlock) (Indexer.handle route .outbox)) s,
      Distinct t ∧ ∀ e, Deed.Halts route (graceEnd route s) (deeds o e (logsFrom chain a toBlock))
        (s.page e) (t.page e) := fun t => halts_of_stops (known_logsFrom h) hs hok
  rw [(like_dispatchFrom hfrom).stops] at hstop
  rcases Prog.mem_stops_bind hstop with hstop | ⟨⟨⟩, v, hv, hstop⟩
  · exact hhalts t hstop
  · rw [hu] at hv
    obtain rfl : u = v := congrArg Prod.snd hv
    -- the logs have been handled, and the cursor is moved or not
    have hdone : ∀ e, Deed.Halts route (graceEnd route s) (deeds o e (logsFrom chain a toBlock))
        (s.page e) (u.page e) := fun e =>
      Deed.halts_of_turns ((turns_of_eval (known_logsFrom h) hs hu).2 e)
    have hdistinct : Distinct u := (turns_of_eval (known_logsFrom h) hs hu).1
    have ht : t ∈ [u, u.updateBlock .outbox a toBlock (logsFrom chain a toBlock)] := hstop
    simp only [List.mem_cons, List.not_mem_nil, or_false] at ht
    rcases ht with rfl | rfl
    · exact ⟨hdistinct, hdone⟩
    · refine ⟨hdistinct, fun e => ?_⟩
      rw [page_updateBlock]
      exact hdone e

/-- **When a chunk can be dispatched again.** -/
lemma harmless_iff (h : History o chain) (hs : Distinct s) (hfrom : s.lastBlock .outbox = some a)
    (hrun : (dispatchFrom route chain toBlock).eval o s = (.ok (), f))
    (hstop : t ∈ (dispatchFrom route chain toBlock).stops o s) (hrestart : Restarts route t t')
    (hfrom' : t'.lastBlock .outbox = some b) :
    (∃ f', (dispatchFrom route chain toBlock).eval o t' = (.ok (), f') ∧ SameFiles f f') ↔
      ∀ e, Deed.Replayable route (graceEnd route t') (s.page e) (t'.page e)
        (deeds o e (between chain a b toBlock)) (deeds o e (logsFrom chain (max a b) toBlock))
        (deeds o e (logsFrom chain b toBlock)) := by
  obtain ⟨hf, hpages⟩ := turns_of_dispatch h hs hfrom hrun
  obtain ⟨ht, hhalts⟩ := halts_of_dispatch h hs hfrom hrun hstop
  have ht' : Distinct t' := hrestart.distinct ht
  have hagain : ∀ e, (Deed.turns route (graceEnd route t') (deeds o e (logsFrom chain b toBlock))
      (t'.page e) = some (f.page e) ↔ Deed.Replayable route (graceEnd route t') (s.page e) (t'.page e)
        (deeds o e (between chain a b toBlock)) (deeds o e (logsFrom chain (max a b) toBlock))
        (deeds o e (logsFrom chain b toBlock))) := by
    intro e
    have hepoch : ∀ d ∈ deeds o e (between chain a b toBlock) ++
        deeds o e (logsFrom chain (max a b) toBlock), d.epoch = e := fun d hd =>
      (List.mem_append.mp hd).elim epoch_of_mem_deeds epoch_of_mem_deeds
    rw [hrestart.page e]
    exact Deed.turns_again_iff (deeds_claimed h e) hepoch (deeds_lists h e) (hpages e) (hhalts e)
  simp only [← hagain]
  constructor
  · rintro ⟨f', hrun', hsame⟩ e
    obtain ⟨hf', hpages'⟩ := turns_of_dispatch h ht' hfrom' hrun'
    rw [hpages' e, (sameFiles_iff hf hf').mp hsame e]
  · intro hall
    obtain ⟨f', hrun'⟩ := dispatch_of_turns h ht' hfrom' fun e => by
      rw [hall e]
      exact Option.some_ne_none _
    obtain ⟨hf', hpages'⟩ := turns_of_dispatch h ht' hfrom' hrun'
    exact ⟨f', hrun', (sameFiles_iff hf hf').mpr fun e =>
      Option.some.inj ((hpages' e).symm.trans (hall e))⟩

/-! ### Reachable files -/

/-- Nothing but the claims is restricted. -/
@[simps]
def protocol : Protocol Role World Panic Query.Answer where
  inv := Distinct
  durable := Distinct
  rely _ _ _ := True
  guar _ _ _ := True
  answer _ _ _ _ := True
  issue _ _ _ := True
  fault _ _ _ := True

lemma patient (i : Role) : Patient protocol i fun _ => True where
  rely _ _ _ _ _ := trivial
  issue _ _ _ _ _ := trivial
  fault _ _ _ _ _ := trivial

lemma distinct_removeClaim (hs : Distinct s) : Distinct (s.removeClaim e) :=
  hs.sublist (List.filter_sublist.map _)

/-- A write that leaves the claims as they are. -/
lemma keeps_modify {i : Role} {g : World → World} (hg : ∀ s, (g s).claims = s.claims) :
    Prog.Keeps protocol i (fun _ => True) (Prog.modify g) := by
  intro s hs _
  have hd : Distinct (g s) := by
    rw [Distinct, hg]
    exact hs
  exact ⟨trivial, hd, hd, trivial⟩

/-- What a handler writes keeps them so. -/
lemma distinct_write {event : Event} {t : World} (h : event.Write s t) (hs : Distinct s) :
    Distinct t := by
  cases h with
  | store e claimer root ts hnew hnone => exact distinct_storeClaim hs hnone
  | update hf => exact distinct_updateClaim hs hf.epoch
  | clear _ ks => exact hs
  | queue _ n hsettled => exact hs

lemma distinct_logWrite {log : Log} {target : ScanTarget} {t : World} (h : log.Write target s t)
    (hs : Distinct s) : Distinct t := by
  cases h with
  | act event hev h => exact distinct_write h hs
  | relay task hsig hepoch hkind => exact hs
  | save n => exact hs

lemma keeps_handle (target : ScanTarget) (log : Log) :
    Prog.Keeps protocol .indexer (fun _ => True) (Indexer.handle route target log) := by
  refine Prog.Keeps.bind ?_ fun _ => keeps_modify fun _ => rfl
  refine (confined_dispatch target log).keeps (patient .indexer) (fun t u ht _ hw => ?_)
    fun _ _ _ _ _ => trivial
  have hu : Distinct u := distinct_logWrite hw ht
  exact ⟨trivial, hu, hu, trivial⟩

lemma keeps_run (n : ℕ) :
    Prog.Keeps protocol .indexer (fun _ => True) (Indexer.run route n) := by
  intro s hs _
  have hcatchup : ∀ target g, Prog.Keeps protocol .indexer (fun _ => True)
      (Indexer.modifyCatchup target g) := fun target g => keeps_modify fun w => by
    cases target <;> rfl
  have hset : Prog.Keeps protocol .indexer (fun _ => True) (TaskStore.setOnSync true) :=
    keeps_modify fun _ => rfl
  exact Indexer.wp_run (patient .indexer) (fun target => Indexer.keeps_scanChain (patient .indexer)
    (fun _ _ _ => trivial) (hcatchup target) (fun _ _ _ => keeps_modify fun _ => rfl)
    (keeps_handle target)) hset n hs trivial

lemma keeps_initializeIndexer :
    Prog.Keeps protocol .indexer (fun _ => True) (Indexer.initializeIndexer route) := by
  intro s hs _
  have hp := patient .indexer
  refine Indexer.wp_initializeIndexer hp (B := fun _ _ => True) ⟨trivial, hs⟩ hs trivial
    (fun _ _ _ _ _ => trivial) (fun _ _ _ _ _ _ => trivial) (fun _ _ t ht _ => ⟨ht, trivial⟩)
    fun now t _ ht _ => ?_
  have hfind : ∀ provider since, Prog.Keeps protocol .indexer (fun _ => True)
      (findBlockByTimestamp provider since) :=
    fun provider since => hp.keeps (quiet_findBlockByTimestamp provider since)
  have hsync : ∀ since a b, Prog.Keeps protocol .indexer (fun _ => True)
      (TaskStore.initializeSync since a b) := fun since a b => keeps_modify fun _ => rfl
  exact ((hfind .inbox _).bind fun a => (hfind .outbox _).bind fun b => hsync _ a b) t ht trivial

/-! ### The dispatcher -/

lemma clerk : Dispatcher.Clerk protocol .dispatcher where
  note _ _ _ (h : Distinct _) := ⟨trivial, h⟩
  reschedule _ _ _ (h : Distinct _) := ⟨trivial, h⟩
  remove _ _ (h : Distinct _) := ⟨trivial, h⟩

lemma distinct_finish {now : ℕ} {task : Task} {result : Except String Unit} (hs : Distinct s) :
    Distinct (Dispatcher.finish now task result s) := by
  unfold Dispatcher.finish
  split
  · exact hs
  · split
    · exact hs
    · exact hs

lemma executor (task : Task) : Dispatcher.Executor protocol .dispatcher (fun _ => True) route task
    (fun _ => True) fun _ _ => True where
  toPatient := patient .dispatcher
  reads _ := { patient .dispatcher with
    none := fun _ _ _ _ => trivial
    many := fun _ _ _ => trivial }
  unknownRoute _ _ _ := trivial
  undetermined _ _ _ _ _ _ _ := trivial
  claim _ _ _ _ _ := trivial
  root _ _ _ _ _ := trivial
  rootStays _ _ _ _ _ _ _ := trivial
  send _ _ _ _ _ := trivial
  withdraw _ _ _ _ := ⟨trivial, trivial⟩

lemma wp_processTask {now : ℕ} {task : Task} (hs : Distinct s) :
    (Dispatcher.processTask route now task).wp protocol .dispatcher (fun _ => Distinct) s := by
  refine Dispatcher.wp_processTask clerk hs (Dispatcher.wp_body (executor task) hs trivial
    (fun result t ht _ _ => ⟨ht, distinct_finish ht⟩)
    (fun _ claimed root n t ht _ _ _ => ⟨trivial, ht, ht, distinct_finish ht⟩) fun _ t ht _ => ?_)
  have hremoved : Distinct (t.removeClaim task.epoch) := distinct_removeClaim ht
  exact ⟨trivial, hremoved, hremoved, distinct_finish hremoved⟩

/-! ### The runs -/

/-- The route initialises and scans, whatever the nodes answer, makes passes, and is started again
after any crash. -/
def system (route : Route) : System Role World Panic Query.Answer :=
  scanSystem route (Indexer.initializeIndexer route) Empty (fun _ _ _ _ => True) Restarted

theorem covers (route : Route) : protocol.Covers (system route) where
  rely_refl _ _ := trivial
  rely_trans _ _ _ _ _ _ := trivial
  guar_rely _ _ _ _ _ _ := trivial
  answer _ _ _ _ _ := trivial
  env s t hst hs := by
    obtain ⟨-, heq⟩ := hst
    have ht : Distinct t := by
      rw [heq]
      exact hs
    exact ⟨ht, fun _ => trivial⟩
  init s hs := by
    show (s.claims.map ClaimData.epoch).Nodup
    rw [hs.2.1]
    exact List.nodup_nil
  boot i p s t hp _ _ hs := by
    cases i with
    | indexer =>
      obtain ⟨n, rfl⟩ := hp
      have hstart : Prog.Keeps protocol .indexer (fun _ => True) (do
          Indexer.initializeIndexer route
          Indexer.run route n) := keeps_initializeIndexer.bind fun _ => keeps_run n
      exact Prog.wp_mono (fun _ u hu => hu.1) (hstart t hs trivial)
    | dispatcher =>
      obtain ⟨n, rfl⟩ := hp
      refine Dispatcher.wp_run (L := fun _ _ => True) (patient .dispatcher) (fun _ _ => trivial)
        (fun _ _ _ _ _ _ => trivial) (fun _ _ _ _ => trivial) (fun now task l u hu _ => ?_) n hs
      exact Prog.wp_mono (fun _ v hv => ⟨hv, trivial⟩) (wp_processTask hu)
  durable _ h := h
  restart s t hs hst := by
    obtain ⟨onSync, rfl⟩ := hst
    exact hs

/-- No reachable claims file has two claims of one epoch. -/
theorem distinct_reachable {c : Config Role World Panic Query.Answer}
    (hc : (system route).Reachable c) : Distinct c.store := ((covers route).reachable hc).inv

/-- **When a crash is harmless.** A chunk of the outbox is dispatched, from reachable files; the
route stops at one of its writes and is started again, with the cursors as they were or new ones. The
logs from its cursor on are handled again without a panic, and leave the claims and the tasks of the
run that was not stopped, if and only if the files at the stop are `Replayable`, epoch by epoch. The
dispatched chunk is the one of a scan by `like_scanChunk`. -/
theorem replay_harmless_iff (route : Route) {o : (q : Query) → q.Answer} {chain : List Log}
    {toBlock fromBlock fromBlock' : ℕ} {c : Config Role World Panic Query.Answer} {t t' f : World}
    (hchain : History o chain) (hc : (system route).Reachable c)
    (hfrom : c.store.lastBlock .outbox = some fromBlock)
    (hrun : (dispatchFrom route chain toBlock).eval o c.store = (.ok (), f))
    (hstop : t ∈ (dispatchFrom route chain toBlock).stops o c.store)
    (hrestart : Restarts route t t') (hfrom' : t'.lastBlock .outbox = some fromBlock') :
    (∃ f', (dispatchFrom route chain toBlock).eval o t' = (.ok (), f') ∧ SameFiles f f') ↔
      ∀ e, Deed.Replayable route (graceEnd route t') (c.store.page e) (t.page e)
        (deeds o e (between chain fromBlock fromBlock' toBlock))
        (deeds o e (logsFrom chain (max fromBlock fromBlock') toBlock))
        (deeds o e (logsFrom chain fromBlock' toBlock)) := by
  rw [harmless_iff hchain (distinct_reachable hc) hfrom hrun hstop hrestart hfrom']
  simp only [hrestart.page]

/-- Where the cursors have been resumed, all depends on the `Claimed` logs: one whose claim has been
stored must find a task of its epoch. -/
theorem resumed_harmless_iff (route : Route) {o : (q : Query) → q.Answer} {chain : List Log}
    {toBlock fromBlock : ℕ} {c : Config Role World Panic Query.Answer} {t t' f : World}
    (hchain : History o chain) (hc : (system route).Reachable c)
    (hfrom : c.store.lastBlock .outbox = some fromBlock)
    (hrun : (dispatchFrom route chain toBlock).eval o c.store = (.ok (), f))
    (hstop : t ∈ (dispatchFrom route chain toBlock).stops o c.store)
    (hrestart : Restarts route t t') (hfrom' : t'.lastBlock .outbox = some fromBlock)
    (hsince : t'.schedule.indexingSince = c.store.schedule.indexingSince) :
    (∃ f', (dispatchFrom route chain toBlock).eval o t' = (.ok (), f') ∧ SameFiles f f') ↔
      ∀ e, ∀ d ∈ deeds o e (logsFrom chain fromBlock toBlock), d.Claims → t.claim? e ≠ none →
        ∃ task ∈ t.schedule.tasks, task.epoch = e := by
  have hs : Distinct c.store := distinct_reachable hc
  obtain ⟨-, hpages⟩ := turns_of_dispatch hchain hs hfrom hrun
  obtain ⟨-, hhalts⟩ := halts_of_dispatch hchain hs hfrom hrun hstop
  have hgrace : graceEnd route t' = graceEnd route c.store := by
    rw [graceEnd, hsince, graceEnd]
  have hlate : ∀ e, ∀ d ∈ deeds o e (logsFrom chain fromBlock toBlock), ¬d.Claims →
      (t.page e).opening = none → ((t.page e).Tasked ∨ ∀ b ∈ deeds o e (logsFrom chain fromBlock
        toBlock), ¬b.Claims) → d.time < graceEnd route t' := by
    intro e d hd hlater hnone hskip
    have hfirst : (deeds o e (between chain fromBlock fromBlock toBlock) ++
        deeds o e (logsFrom chain (max fromBlock fromBlock) toBlock)).Pairwise _ :=
      deeds_claimed hchain e
    rw [between_self, max_self] at hfirst
    rw [hgrace]
    exact Deed.time_lt_of_turns hfirst (hpages e) (hhalts e) hnone hskip d hd hlater
  rw [harmless_iff hchain hs hfrom hrun hstop hrestart hfrom']
  simp only [hrestart.page, between_self, max_self]
  refine forall_congr' fun e => Deed.replayable_nil_iff.trans ?_
  rw [and_iff_left (hlate e)]
  refine forall₃_congr fun d _ _ => imp_congr (not_congr opening_page_eq_none) tasked_page

/-! ### A claim without its task -/

/-- The route has initialised on empty files. -/
def initialised : Config Role World Panic Query.Answer :=
  Config.play (A := Query.Answer) {
    store := {}
    thread
      | .indexer => Indexer.initializeIndexer Sample.route >>= fun _ => Indexer.run Sample.route 0
      | .dispatcher => Dispatcher.run Sample.route 0 } (Sample.times 12 .indexer (Sample.node 100 0))

lemma reachable_initialised : (system Sample.route).Reachable initialised := by
  refine System.reachable_play Sample.mem_roles (fun _ _ _ _ => trivial) (.init ⟨rfl, rfl, rfl⟩ ?_)
    (by decide +kernel)
  rintro (_ | _)
  · exact ⟨0, rfl⟩
  · exact ⟨0, rfl⟩

/-- A chunk with one claim. -/
def chunk : M Unit := dispatchFrom Sample.route [Sample.claimed 5 1 3] 10

def finished : World := (chunk.eval (Sample.node 100 0) initialised.store).2

/-- The files after the first writes of the chunk. -/
def stopped (writes : ℕ) : World :=
  (chunk.stops (Sample.node 100 0) initialised.store).getD writes {}

/-- The files when the route has initialised again. -/
def restarted (writes : ℕ) : World :=
  ((Indexer.initializeIndexer Sample.route).eval (Sample.node 100 0) (forget (stopped writes))).2

lemma history_claimed : History (Sample.node 100 0) [Sample.claimed 5 1 3] where
  known log hl := by
    obtain rfl := List.mem_singleton.mp hl
    have hsome : (deed? (Sample.node 100 0) (Sample.claimed 5 1 3)).isSome = true := by
      decide +kernel
    exact Option.isSome_iff_ne_none.mp hsome
  sorted := List.pairwise_singleton _ _
  claimed := List.pairwise_singleton _ _

lemma restarts_restarted {writes : ℕ} (h : ((Indexer.initializeIndexer Sample.route).eval
    (Sample.node 100 0) (forget (stopped writes))).1 = .ok ()) :
    Restarts Sample.route (stopped writes) (restarted writes) := by
  unfold Restarts restarted
  rw [← h]
  refine Prog.runs_eval (fun _ => ?_) (fun _ _ => ?_) _ _
  · rfl
  · trivial

/-- The claim is stored when the route stops, and its task is not: the log is handled again, finds
no task and stores the claim once more. -/
theorem replay_panics : ∃ (c : Config Role World Panic Query.Answer) (chain : List Log)
    (t t' f : World), (system Sample.route).Reachable c ∧ History (Sample.node 100 0) chain ∧
      c.store.lastBlock .outbox = some 0 ∧
      (dispatchFrom Sample.route chain 10).eval (Sample.node 100 0) c.store = (.ok (), f) ∧
      t ∈ (dispatchFrom Sample.route chain 10).stops (Sample.node 100 0) c.store ∧
      Restarts Sample.route t t' ∧ t'.lastBlock .outbox = some 0 ∧
      ((dispatchFrom Sample.route chain 10).eval (Sample.node 100 0) t').1 =
        .error (.duplicateClaim 5) ∧
      ¬∃ f', (dispatchFrom Sample.route chain 10).eval (Sample.node 100 0) t' = (.ok (), f') ∧
        SameFiles f f' := by
  have hok : (chunk.eval (Sample.node 100 0) initialised.store).1 = .ok () := by decide +kernel
  have hstop : stopped 1 ∈ chunk.stops (Sample.node 100 0) initialised.store := by decide +kernel
  have hstart : ((Indexer.initializeIndexer Sample.route).eval (Sample.node 100 0)
      (forget (stopped 1))).1 = .ok () := by decide +kernel
  have hpanic : (chunk.eval (Sample.node 100 0) (restarted 1)).1 = .error (.duplicateClaim 5) := by
    decide +kernel
  refine ⟨initialised, _, stopped 1, restarted 1, finished, reachable_initialised, history_claimed,
    by decide +kernel, Prod.ext hok rfl, hstop, restarts_restarted hstart, by decide +kernel, hpanic, ?_⟩
  rintro ⟨f', hrun, -⟩
  have hrun' : chunk.eval (Sample.node 100 0) (restarted 1) = (.ok (), f') := hrun
  rw [hrun'] at hpanic
  cases hpanic

/-- A write later the task is queued, and the log is passed over. -/
theorem replay_harmless_iff_sample : Deed.Replayable Sample.route
    (graceEnd Sample.route (restarted 2)) (initialised.store.page 5) ((stopped 2).page 5)
    (deeds (Sample.node 100 0) 5 (between [Sample.claimed 5 1 3] 0 0 10))
    (deeds (Sample.node 100 0) 5 (logsFrom [Sample.claimed 5 1 3] 0 10))
    (deeds (Sample.node 100 0) 5 (logsFrom [Sample.claimed 5 1 3] 0 10)) := by
  have hok : (chunk.eval (Sample.node 100 0) initialised.store).1 = .ok () := by decide +kernel
  have hstop : stopped 2 ∈ chunk.stops (Sample.node 100 0) initialised.store := by decide +kernel
  have hstart : ((Indexer.initializeIndexer Sample.route).eval (Sample.node 100 0)
      (forget (stopped 2))).1 = .ok () := by decide +kernel
  have hagain : (chunk.eval (Sample.node 100 0) (restarted 2)).1 = .ok () := by decide +kernel
  have hclaims : (chunk.eval (Sample.node 100 0) (restarted 2)).2.claims = finished.claims := by
    decide +kernel
  have htasks : (chunk.eval (Sample.node 100 0) (restarted 2)).2.schedule.tasks =
      finished.schedule.tasks := by decide +kernel
  have hrun : chunk.eval (Sample.node 100 0) initialised.store = (.ok (), finished) :=
    Prod.ext hok rfl
  refine (replay_harmless_iff Sample.route history_claimed reachable_initialised
    (by decide +kernel) hrun hstop (restarts_restarted hstart) (by decide +kernel)).mp
      ⟨_, Prod.ext hagain rfl, fun e => ?_, fun task => ?_⟩ 5
  · rw [World.entries, World.entries, ← hclaims]
    rfl
  · rw [← htasks]
    rfl

end Replay

end VeaValidator
