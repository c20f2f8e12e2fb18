import VeaValidator.Changes
import VeaValidator.Rescan

/-!
Logs that are handled twice.

A chunk begins with the block the chunk before has ended with, and the node answers with the logs of
both ends. So a log in a block on which a chunk ends is handed to its handler once more, and every
other log once.
-/

namespace VeaValidator

open Coop

namespace Twice

section
variable (chain : ScanTarget → List Log) (start : ScanTarget → ℕ)

/-- A call may fail at any time, and to a log query the node answers with logs of the chain that
are in the blocks of the filter, none of them more than once. -/
def Faithful : Role → (q : Query) → q.Answer → World → Prop
  | .indexer, .logs p f, .ok logs, _ => ∀ target, p = Indexer.provider target →
    logs.Subperm ((chain target).filter fun log => log.Within f.fromBlock f.toBlock)
  | _, _, _, _ => True

/-- No chunk after the first is read from a block with a log on. -/
def Careful : Role → (q : Query) → q.Answer → World → Prop
  | .indexer, .logs p f, .ok _, _ => ∀ target, p = Indexer.provider target →
    f.fromBlock ≠ start target → ∀ log ∈ chain target, log.blockNumber ≠ some f.fromBlock
  | _, _, _, _ => True

/-- The files of a route whose cursors are at `start`, with anything else in them. -/
def Initialised (w : World) : Prop := w.log = [] ∧ ∀ target, w.lastBlock target = some (start target)

/-- The route scans and makes its passes, without a crash. -/
def system (route : Route) : System Role World Panic Query.Answer :=
  scanSystem route (pure ()) (Initialised start) (Faithful chain) fun _ _ => False

end

/-! ### Between two chunks -/

variable {route : Route} {chain : ScanTarget → List Log} {start : ScanTarget → ℕ}
  {target : ScanTarget} {s t u : World}

variable (chain) in
/-- No log has been handled more often than it is on the chain. -/
def Once (w : World) : Prop :=
  ∀ target log, w.log.count (.handled target log) ≤ (chain target).count log

variable (start) in
/-- The cursor is there, and everything handled is in blocks up to it. -/
def Settled (target : ScanTarget) (w : World) : Prop :=
  ∃ cursor, w.lastBlock target = some cursor ∧ start target ≤ cursor ∧
    ∀ log, .handled target log ∈ w.log →
      start target < cursor ∧ ∃ n, log.blockNumber = some n ∧ n ≤ cursor

/-- What the dispatcher and the chains leave as it is. -/
structure Others (s t : World) : Prop where
  cursor : ∀ target, t.lastBlock target = s.lastBlock target
  handled : ∀ target log, t.log.count (.handled target log) = s.log.count (.handled target log)

lemma Others.refl (s : World) : Others s s := ⟨fun _ => rfl, fun _ _ => rfl⟩

lemma Others.trans (h : Others s t) (h' : Others t u) : Others s u :=
  ⟨fun target => (h'.cursor target).trans (h.cursor target),
    fun target log => (h'.handled target log).trans (h.handled target log)⟩

lemma Others.mem (h : Others s t) {log : Log} :
    .handled target log ∈ t.log ↔ .handled target log ∈ s.log := by
  rw [← List.count_pos_iff, ← List.count_pos_iff, h.handled]

lemma others_of_change (h : Change s t) : Others s t := by
  refine ⟨h.lastBlock, fun target log => ?_⟩
  rcases h.log with hlog | ⟨o, ho, hlog⟩
  · rw [hlog]
  · have hne : o ≠ .handled target log := by
      rintro rfl
      exact ho
    rw [hlog, List.count_cons_of_ne hne]

lemma Once.others (h : Once chain s) (hc : Others s t) : Once chain t := fun target log => by
  rw [hc.handled]
  exact h target log

lemma Settled.others (h : Settled start target s) (hc : Others s t) : Settled start target t := by
  obtain ⟨cursor, hcur, hle, hlogs⟩ := h
  exact ⟨cursor, by rw [hc.cursor, hcur], hle, fun log hm => hlogs log (hc.mem.mp hm)⟩

/-! ### The protocol -/

variable (start) in
/-- Logs are asked for from the cursor on, between two chunks. -/
def Asked : Role → Query → World → Prop
  | .indexer, .logs p f, w => ∀ target, p = Indexer.provider target →
    Settled start target w ∧ w.lastBlock target = some f.fromBlock
  | _, _, _ => True

variable (chain start) in
/-- The rules without those for queries. -/
@[simps]
def rules : Protocol Role World Panic Query.Answer where
  inv := Once chain
  durable _ := True
  rely
    | .indexer, s, t => Others s t
    | .dispatcher, _, _ => True
  guar
    | .indexer, _, _ => True
    | .dispatcher, s, t => Others s t
  answer i q a s := Faithful chain i q a s ∧ Careful chain start i q a s
  issue _ _ _ := True
  fault _ _ _ := True

variable (chain start) in
abbrev protocol : Protocol Role World Panic Query.Answer := (rules chain start).issuing (Asked start)

/-- A program that asks for no logs may be judged by the rules alone. -/
lemma wp_logless {α : Type} {p : M α} (hp : Logless p) {R : α → World → Prop}
    (h : p.wp (rules chain start) .indexer R s) : p.wp (protocol chain start) .indexer R s := by
  refine Protocol.wp_issuing (fun q t hq => ?_) hp h
  cases q with
  | logs p f => exact absurd rfl (hq p f)
  | _ => trivial

lemma patient {J : World → Prop} (h : ∀ s t, J s → Others s t → J t) :
    Patient (rules chain start) .indexer J where
  rely s t hJ ht _ := h s t hJ ht
  issue _ _ _ _ _ := trivial
  fault _ _ _ _ _ := trivial

/-- A program that makes such changes keeps what the others keep. -/
lemma keeps_changing {α : Type} {p : M α} (hp : Changing p) (hask : Logless p) {J : World → Prop}
    (h : ∀ s t, J s → Others s t → J t) : Prog.Keeps (protocol chain start) .indexer J p := by
  have hkeeps : Prog.Keeps (rules chain start) .indexer J p :=
    .of_loose hp (fun s t hJ ht _ => h s t hJ ht)
      (fun s t hI hJ hc => ⟨trivial, trivial, hI.others (others_of_change hc),
        h s t hJ (others_of_change hc)⟩)
      (fun _ _ _ _ _ => trivial) fun _ _ _ _ _ => trivial
  exact fun s hI hJ => wp_logless hask (hkeeps s hI hJ)

/-! ### A chunk -/

variable (chain start) in
/-- The logs of `l` are still to be handled in a chunk that ends with `toBlock`. -/
structure Chunk (target : ScanTarget) (fromBlock toBlock : ℕ) (l : List Log) (w : World) :
    Prop where
  cursor : w.lastBlock target = some fromBlock
  first : start target ≤ fromBlock
  count : ∀ log, w.log.count (.handled target log) + l.count log ≤ (chain target).count log
  below : ∀ log, .handled target log ∈ w.log ∨ log ∈ l → ∃ n, log.blockNumber = some n ∧ n ≤ toBlock
  rest : ∀ target', target' ≠ target → Settled start target' w

lemma Chunk.others {fromBlock toBlock : ℕ} {l : List Log}
    (h : Chunk chain start target fromBlock toBlock l s) (hc : Others s t) :
    Chunk chain start target fromBlock toBlock l t where
  cursor := by rw [hc.cursor, h.cursor]
  first := h.first
  count log := by
    rw [hc.handled]
    exact h.count log
  below log hm := h.below log (hm.imp_left hc.mem.mp)
  rest target' hne := (h.rest target' hne).others hc

/-- **A careful answer has nothing new twice.** -/
lemma count_answer {f : Filter} {logs : List Log} (hI : Once chain s) (hJ : Settled start target s)
    (hfrom : s.lastBlock target = some f.fromBlock)
    (ha : Faithful chain .indexer (.logs (Indexer.provider target) f) (.ok logs) u)
    (hc : Careful chain start .indexer (.logs (Indexer.provider target) f) (.ok logs) u) (log : Log) :
    s.log.count (.handled target log) + logs.count log ≤ (chain target).count log := by
  have hsub := ha target rfl
  by_cases hm : .handled target log ∈ s.log
  · obtain ⟨cursor, hcur, -, hlogs⟩ := hJ
    obtain rfl : f.fromBlock = cursor := Option.some.inj (hfrom.symm.trans hcur)
    obtain ⟨hlt, n, hn, hle⟩ := hlogs log hm
    -- The log is in a block up to the cursor, so it could only come again with the cursor's own.
    have hnone : log ∉ logs := by
      intro hl
      obtain ⟨hchain, hw⟩ := List.mem_filter.mp (hsub.subset hl)
      obtain ⟨m, hm', hge, -⟩ := of_decide_eq_true hw
      obtain rfl : n = m := Option.some.inj (hn.symm.trans hm')
      have hne : f.fromBlock ≠ start target := by omega
      refine hc target rfl hne log hchain ?_
      rw [hn, Nat.le_antisymm hle hge]
    rw [List.count_eq_zero_of_not_mem hnone, Nat.add_zero]
    exact hI target log
  · rw [List.count_eq_zero_of_not_mem hm, Nat.zero_add]
    calc logs.count log
        ≤ ((chain target).filter fun log => log.Within f.fromBlock f.toBlock).count log :=
          hsub.count_le log
      _ ≤ (chain target).count log := List.filter_sublist.count_le log

lemma wp_handle {fromBlock toBlock : ℕ} {l : List Log} {log : Log} (hI : Once chain s)
    (h : Chunk chain start target fromBlock toBlock (log :: l) s) :
    (Indexer.handle route target log).wp (protocol chain start) .indexer
      (fun _ t => Once chain t ∧ Chunk chain start target fromBlock toBlock l t) s := by
  have hkeeps : Prog.Keeps (protocol chain start) .indexer
      (Chunk chain start target fromBlock toBlock (log :: l)) (Indexer.dispatch route target log) :=
    keeps_changing (changing_dispatch target log) (Logless.dispatch target log)
      fun _ _ hJ hc => hJ.others hc
  refine Indexer.wp_handle (hkeeps s hI h) ?_
  rintro t ⟨hIt, ht⟩
  have hsame : ∀ log', (t.note (.handled target log)).log.count (.handled target log') + l.count log' =
      t.log.count (.handled target log') + (log :: l).count log' := by
    intro log'
    rw [World.log_note, List.count_cons, List.count_cons]
    by_cases heq : log = log'
    · simp [heq]
      omega
    · simp [heq]
  have hother : ∀ target' log', target' ≠ target →
      (t.note (.handled target log)).log.count (.handled target' log') =
        t.log.count (.handled target' log') := by
    intro target' log' hne
    rw [World.log_note, List.count_cons_of_ne]
    rintro ⟨⟩
    exact hne rfl
  refine ⟨trivial, trivial, fun target' log' => ?_, ht.cursor, ht.first, fun log' => ?_,
    fun log' hm => ?_, fun target' hne => ?_⟩
  · by_cases htarget : target' = target
    · subst htarget
      have hcount := ht.count log'
      rw [← hsame] at hcount
      exact (Nat.le_add_right _ _).trans hcount
    · rw [hother target' log' htarget]
      exact hIt target' log'
  · rw [hsame]
    exact ht.count log'
  · refine ht.below log' ?_
    rcases hm with hm | hm
    · rcases List.mem_cons.mp hm with hm | hm
      · cases hm
        exact .inr List.mem_cons_self
      · exact .inl hm
    · exact .inr (List.mem_cons_of_mem _ hm)
  · obtain ⟨cursor, hcur, hle, hlogs⟩ := ht.rest target' hne
    refine ⟨cursor, hcur, hle, fun log' hm => hlogs log' ?_⟩
    rwa [← List.count_pos_iff, hother target' log' hne, List.count_pos_iff] at hm

variable (start) in
def Ready (w : World) : Prop := ∀ target, Settled start target w

lemma Ready.others (h : Ready start s) (hc : Others s t) : Ready start t :=
  fun target => (h target).others hc

lemma wp_chunk {fromBlock toBlock : ℕ} {logs : List Log} (hlt : fromBlock < toBlock)
    (hI : Once chain s) (h : Chunk chain start target fromBlock toBlock logs s) :
    ((do
      forM logs (Indexer.handle route target)
      TaskStore.updateBlock target fromBlock toBlock logs) : M Unit).wp (protocol chain start)
        .indexer (fun _ t => Once chain t ∧ Ready start t) s := by
  rw [Prog.wp_bind]
  refine Prog.wp_mono ?_ (Prog.wp_forM (J := fun l t => Once chain t ∧
    Chunk chain start target fromBlock toBlock l t) (fun log l t ht => wp_handle ht.1 ht.2) ⟨hI, h⟩)
  rintro _ t ⟨hIt, ht⟩
  have hmem : ∀ target' log, .handled target' log ∈
      (t.updateBlock target fromBlock toBlock logs).log → .handled target' log ∈ t.log := by
    intro target' log hm
    simpa using hm
  refine ⟨trivial, trivial, fun target' log => ?_, fun target' => ?_⟩
  · have hne : Obs.scanned target fromBlock toBlock logs ≠ .handled target' log := nofun
    rw [World.log_updateBlock, List.count_cons_of_ne hne]
    exact hIt target' log
  · by_cases htarget : target' = target
    · subst htarget
      have hfirst := ht.first
      refine ⟨toBlock, by rw [World.lastBlock_updateBlock, if_pos rfl], by omega, fun log hm => ?_⟩
      exact ⟨by omega, ht.below log (.inl (hmem _ _ hm))⟩
    · obtain ⟨cursor, hcur, hle, hlogs⟩ := ht.rest target' htarget
      refine ⟨cursor, ?_, hle, fun log hm => hlogs log (hmem _ _ hm)⟩
      rw [World.lastBlock_updateBlock, if_neg htarget, hcur]

/-! ### A scan -/

lemma ready_setCatchup (h : Ready start s) (c : Catchup) : Ready start (s.setCatchup target c) := by
  intro target'
  obtain ⟨cursor, hcur, hle, hlogs⟩ := h target'
  refine ⟨cursor, by rw [World.lastBlock_setCatchup, hcur], hle, fun log hm => hlogs log ?_⟩
  rwa [World.log_setCatchup] at hm

lemma once_setCatchup (h : Once chain s) (c : Catchup) : Once chain (s.setCatchup target c) := by
  intro target' log
  rw [World.log_setCatchup]
  exact h target' log

/-- While it scans from `fromBlock`, the cursor is there. -/
def From (start : ScanTarget → ℕ) (target : ScanTarget) (fromBlock : ℕ) (w : World) : Prop :=
  Ready start w ∧ w.lastBlock target = some fromBlock

lemma From.others {fromBlock : ℕ} (h : From start target fromBlock s) (hc : Others s t) :
    From start target fromBlock t := ⟨h.1.others hc, by rw [hc.cursor, h.2]⟩

lemma keeps_modifyCatchup {fromBlock : ℕ} (f : Catchup → Catchup) :
    Prog.Keeps (protocol chain start) .indexer (From start target fromBlock)
      (Indexer.modifyCatchup target f) := fun _ hI hJ =>
  ⟨trivial, trivial, once_setCatchup hI _, ready_setCatchup hJ.1 _, by
    rw [World.lastBlock_setCatchup, hJ.2]⟩

lemma keeps_catchupTarget (now fromBlock : ℕ) :
    Prog.Keeps (protocol chain start) .indexer (From start target fromBlock)
      (Indexer.catchupTarget target now fromBlock) := by
  have hfind : ∀ targetTs, Prog.Keeps (protocol chain start) .indexer (From start target fromBlock)
      (findBlockByTimestamp (Indexer.provider target) targetTs) := fun targetTs s hI hJ =>
    wp_logless (Logless.findBlockByTimestamp _ _)
      ((patient fun _ _ h hc => h.others hc).keeps (quiet_findBlockByTimestamp _ _) s hI hJ)
  refine Prog.Keeps.bind Prog.Keeps.gets fun c => Prog.Keeps.ite (fun _ => ?_) fun _ => Prog.Keeps.pure
  refine Prog.Keeps.bind (hfind _) fun b => ?_
  exact Prog.Keeps.bind (keeps_modifyCatchup _) fun _ => Prog.Keeps.pure

/-- A chunk starts at the cursor and ends behind it, whatever its target is. -/
lemma wp_scanChunk {fromBlock targetBlock : ℕ} (hlt : fromBlock < targetBlock) (hI : Once chain s)
    (hJ : From start target fromBlock s) :
    (Indexer.scanChunk route target fromBlock targetBlock).wp (protocol chain start) .indexer
      (fun _ t => Once chain t ∧ Ready start t) s := by
  rw [Indexer.scanChunk, Prog.wp_bind, Prog.wp_ask]
  refine ⟨hI, ?_, fun t ht hIt a ha => ?_⟩
  · rintro target' hp
    rw [Indexer.provider_injective hp]
    exact ⟨hJ.1 target, hJ.2⟩
  have hJt := hJ.others ht
  cases a with
  | error e => exact ⟨hIt, hJt.1⟩
  | ok logs =>
    have hto : fromBlock < min (fromBlock + Indexer.chunkSize) targetBlock := by
      rw [Indexer.chunkSize]
      omega
    have hchunk : Chunk chain start target fromBlock
        (min (fromBlock + Indexer.chunkSize) targetBlock) logs t := by
      obtain ⟨cursor, hcur, hle, hlogs⟩ := hJt.1 target
      obtain rfl : cursor = fromBlock := Option.some.inj (hcur.symm.trans hJt.2)
      refine ⟨hcur, hle, count_answer hIt (hJt.1 target) hcur ha.1 ha.2, fun log hm => ?_,
        fun target' _ => hJt.1 target'⟩
      rcases hm with hm | hm
      · obtain ⟨-, n, hn, hnle⟩ := hlogs log hm
        exact ⟨n, hn, by omega⟩
      · obtain ⟨n, hn, -, hnle⟩ := of_decide_eq_true (List.mem_filter.mp
          ((ha.1 target rfl).subset hm)).2
        exact ⟨n, hn, hnle⟩
    dsimp only
    rw [← bind_assoc, Prog.wp_bind]
    refine Prog.wp_mono ?_ (wp_chunk hto hIt hchunk)
    rintro _ u ⟨hIu, hJu⟩
    exact ⟨trivial, trivial, once_setCatchup hIu _, ready_setCatchup hJu _⟩

lemma wp_scanChain (target : ScanTarget) (hI : Once chain s) (hJ : Ready start s) :
    (Indexer.scanChain route target).wp (protocol chain start) .indexer
      (fun _ t => Once chain t ∧ Ready start t) s := by
  rw [Indexer.scanChain, Prog.wp_bind, Prog.wp_ask]
  refine ⟨hI, trivial, fun t ht hIt a _ => ?_⟩
  have hJt := hJ.others ht
  rcases a with e | currentBlock
  · exact ⟨hIt, hJt⟩
  dsimp only
  rw [Prog.wp_bind, Prog.wp_ask]
  refine ⟨hIt, trivial, fun u hu hIu b _ => ?_⟩
  have hJu := hJt.others hu
  rcases b with e | _ | block
  · exact ⟨hIu, hJu⟩
  · exact ⟨hIu, hJu⟩
  dsimp only
  rw [Prog.wp_bind]
  refine Indexer.wp_cursor (fun _ => ⟨hIu, trivial⟩) fun fromBlock hfrom => ?_
  rw [Prog.wp_bind]
  refine Prog.wp_mono ?_ (keeps_catchupTarget _ fromBlock u hIu ⟨hJu, hfrom⟩)
  rintro targetBlock v ⟨hIv, hJv⟩
  rw [Prog.wp_ite]
  refine ⟨fun _ => ?_, fun hlt => ?_⟩
  · rw [Prog.wp_bind]
    refine Prog.wp_mono ?_ (keeps_modifyCatchup _ v hIv hJv)
    rintro _ x ⟨hIx, hJx⟩
    exact ⟨hIx, hJx.1⟩
  · have hlt' : fromBlock < targetBlock := Nat.lt_of_not_le hlt
    rw [Indexer.catchup, Prog.wp_bind, Prog.wp_gets]
    split
    · rw [Prog.wp_bind]
      refine Prog.wp_mono ?_ (keeps_modifyCatchup _ v hIv hJv)
      rintro _ x ⟨hIx, hJx⟩
      exact wp_scanChunk hlt' hIx hJx
    · exact wp_scanChunk hlt' hIv hJv

lemma wp_run (n : ℕ) (hI : Once chain s) (hJ : Ready start s) :
    (Indexer.run route n).wp (protocol chain start) .indexer
      (fun _ t => Once chain t ∧ Ready start t) s := by
  have hscan : ∀ target, Prog.Keeps (protocol chain start) .indexer (Ready start)
      (Indexer.scanChain route target) := fun target s hI hJ => wp_scanChain target hI hJ
  have honce : Prog.Keeps (protocol chain start) .indexer (Ready start) (Indexer.scanOnce route) :=
    Prog.Keeps.bind (hscan .inbox) fun _ => Prog.Keeps.bind (hscan .outbox) fun _ => Prog.Keeps.pure
  have hsleep : ∀ m, Prog.Keeps (protocol chain start) .indexer (Ready start) (sleep m) :=
    fun m s hI hJ => wp_logless Logless.sleep
      ((patient fun _ _ h hc => h.others hc).keeps Quiet.sleep s hI hJ)
  have hset : Prog.Keeps (protocol chain start) .indexer (Ready start) (TaskStore.setOnSync true) :=
    fun s hI hJ => ⟨trivial, trivial, hI, hJ⟩
  suffices hrun : Prog.Keeps (protocol chain start) .indexer (Ready start) (Indexer.run route n) from
    hrun s hI hJ
  induction n with
  | zero => exact Prog.Keeps.pure
  | succ n ih =>
    refine Prog.Keeps.bind honce fun done => Prog.Keeps.ite (fun _ => ?_) fun _ => ?_
    · refine Prog.Keeps.bind Prog.Keeps.gets fun onSync => ?_
      cases onSync with
      | true => exact Prog.Keeps.bind (hsleep _) fun _ => ih
      | false => exact Prog.Keeps.bind hset fun _ => Prog.Keeps.bind (hsleep _) fun _ => ih
    · exact Prog.Keeps.bind (hsleep _) fun _ => ih

/-! ### The runs -/

lemma Initialised.once (h : Initialised start s) : Once chain s := fun target log => by
  rw [h.1, List.count_nil]
  exact Nat.zero_le _

lemma Initialised.ready (h : Initialised start s) : Ready start s := fun target =>
  ⟨start target, h.2 target, le_rfl, fun log hm => by
    rw [h.1] at hm
    cases hm⟩

theorem covers (route : Route) (chain : ScanTarget → List Log) (start : ScanTarget → ℕ) :
    (protocol chain start).Covers ((system chain start route).restrict (Careful chain start)) where
  rely_refl i s := by
    cases i with
    | indexer => exact Others.refl s
    | dispatcher => trivial
  rely_trans i s t u hst htu := by
    cases i with
    | indexer => exact Others.trans hst htu
    | dispatcher => trivial
  guar_rely := Role.guar_rely (fun _ _ _ => trivial) fun _ _ h => h
  answer _ _ _ _ ha := ha
  env s t hst hI := by
    obtain ⟨-, heq⟩ := hst
    have hothers : Others s t := ⟨fun _ => by rw [heq]; rfl, fun _ _ => by rw [heq]⟩
    refine ⟨hI.others hothers, fun i => ?_⟩
    cases i with
    | indexer => exact hothers
    | dispatcher => trivial
  init s hs := hs.once
  boot i p s t hp hs hrel hI := by
    cases i with
    | indexer =>
      obtain ⟨n, rfl⟩ := hp
      have hinit := hs.resolve_right fun h => h.choose_spec.2
      rw [pure_bind]
      exact Prog.wp_mono (fun _ u hu => hu.1) (wp_run n hI (hinit.ready.others hrel))
    | dispatcher =>
      obtain ⟨n, rfl⟩ := hp
      have hkeeps : Prog.Keeps (protocol chain start) .dispatcher (fun _ => True)
          (Dispatcher.run route n) :=
        .of_loose (changing_run n) (fun _ _ _ _ _ => trivial)
          (fun _ _ hIs _ hc => ⟨others_of_change hc, trivial, hIs.others (others_of_change hc),
            trivial⟩)
          (fun q _ _ _ _ => by cases q <;> trivial) fun _ _ _ _ _ => trivial
      exact Prog.wp_mono (fun _ u hu => hu.1) (hkeeps t hI trivial)
  durable _ _ := trivial
  restart _ _ _ h := h.elim

/-- **A log is handled once, in careful runs.** Whatever the heads, the targets and the failures
are: as long as no chunk after the first begins in a block with a log on, no log is handled more
often than it is on the chain, and no answer to a log query brings one that has been. -/
theorem handled_once (route : Route) {chain : ScanTarget → List Log} {start : ScanTarget → ℕ}
    {c : Config Role World Panic Query.Answer}
    (hc : ((system chain start route).restrict (Careful chain start)).Reachable c)
    (target : ScanTarget) (log : Log) :
    c.store.log.count (.handled target log) ≤ (chain target).count log ∧
      ∀ f k logs, c.thread .indexer = .await (.logs (Indexer.provider target) f) k →
        ((system chain start route).restrict (Careful chain start)).answer .indexer
          (.logs (Indexer.provider target) f) (.ok logs) c.store →
        c.store.log.count (.handled target log) + logs.count log ≤ (chain target).count log := by
  have hP := covers route chain start
  have hI := (hP.reachable hc).inv
  refine ⟨hI target log, fun f k logs hk ha => ?_⟩
  have hasked := hP.pending (fun i q s t hq hrel _ => ?_) hc hk
  · obtain ⟨hsettled, hfrom⟩ := hasked target rfl
    exact count_answer hI hsettled hfrom ha.1 ha.2 log
  · cases i with
    | dispatcher => cases q <;> trivial
    | indexer =>
      cases q with
      | logs p f =>
        intro target' hp
        obtain ⟨hsettled, hfrom⟩ := hq target' hp
        exact ⟨hsettled.others hrel, by rw [hrel.cursor, hfrom]⟩
      | _ => trivial

/-! ### A log on the edge of a chunk -/

/-- One claim, in block `n` of the outbox. -/
def sampleChain (n : ℕ) : ScanTarget → List Log
  | .inbox => []
  | .outbox => [Sample.claimed 5 1 n]

/-- The nodes of the chain, with a clock. -/
def sampleNode (n now : ℕ) : (q : Query) → q.Answer
  | .blockNumber _ => .ok (now / 10)
  | .logs .outbox f =>
    .ok ((sampleChain n .outbox).filter fun log => log.Within f.fromBlock f.toBlock)
  | .logs _ _ => .ok []
  | q => Sample.node now 0 q

lemma faithful_sampleNode (n now : ℕ) (i : Role) (q : Query) (w : World) :
    Faithful (sampleChain n) i q (sampleNode n now q) w := by
  cases i with
  | dispatcher => cases q <;> trivial
  | indexer =>
    cases q with
    | logs p f =>
      cases p with
      | inbox => exact fun _ _ => List.nil_subperm
      | outbox =>
        rintro (_ | _) hp
        · cases hp
        · exact List.Subperm.refl _
      | ethereum =>
        rintro (_ | _) hp
        · cases hp
        · cases hp
    | _ => trivial

/-- A log in the first block of all is in no other chunk. -/
lemma careful_sampleNode (now : ℕ) (i : Role) (q : Query) (w : World) :
    Careful (sampleChain 10) (fun _ => 10) i q (sampleNode 10 now q) w := by
  cases i with
  | dispatcher => cases q <;> trivial
  | indexer =>
    cases q with
    | logs p f =>
      have hcare : ∀ target, f.fromBlock ≠ 10 → ∀ log ∈ sampleChain 10 target,
          log.blockNumber ≠ some f.fromBlock := by
        intro target hne log hl hn
        cases target with
        | inbox => cases hl
        | outbox =>
          rw [List.mem_singleton.mp hl] at hn
          exact hne (Option.some.inj hn).symm
      cases p <;> exact fun target _ => hcare target
    | _ => trivial

/-- The route on cursors at block 10, with two scans to make. -/
def fromBlock10 : Config Role World Panic Query.Answer where
  store := { schedule := { inboxLastBlock := some 10, outboxLastBlock := some 10 } }
  thread
    | .indexer => Indexer.run Sample.route 2
    | .dispatcher => Dispatcher.run Sample.route 1

/-- The chunks from block 10 to 30 and from 30 to 40. -/
def twoChunks (n : ℕ) : List (Role × ((q : Query) → q.Answer)) :=
  Sample.times 25 .indexer (sampleNode n 1500) ++ Sample.times 24 .indexer (sampleNode n 1600)

lemma mem_twoChunks {n : ℕ} {x : Role × ((q : Query) → q.Answer)} (hx : x ∈ twoChunks n) :
    ∃ now, x = (.indexer, sampleNode n now) := by
  rcases List.mem_append.mp hx with hx | hx
  · exact ⟨1500, List.eq_of_mem_replicate hx⟩
  · exact ⟨1600, List.eq_of_mem_replicate hx⟩

lemma initialised_fromBlock10 : Initialised (fun _ => 10) fromBlock10.store :=
  ⟨rfl, fun target => by cases target <;> rfl⟩

lemma boot_fromBlock10 (chain : ScanTarget → List Log) (i : Role) :
    (system chain (fun _ => 10) Sample.route).boot i (fromBlock10.thread i) := by
  cases i with
  | indexer => exact ⟨2, rfl⟩
  | dispatcher => exact ⟨1, rfl⟩

lemma reachable_careful : ((system (sampleChain 10) (fun _ => 10) Sample.route).restrict
    (Careful (sampleChain 10) fun _ => 10)).Reachable (fromBlock10.play (twoChunks 10)) := by
  refine System.reachable_play Sample.mem_roles (fun x hx q w => ?_)
    (.init initialised_fromBlock10 (boot_fromBlock10 (sampleChain 10))) (by decide +kernel)
  obtain ⟨now, rfl⟩ := mem_twoChunks hx
  exact ⟨faithful_sampleNode 10 now _ q w, careful_sampleNode now _ q w⟩

theorem handled_once_sample :
    (fromBlock10.play (twoChunks 10)).store.lastBlock .outbox = some 40 ∧
    .handled .outbox (Sample.claimed 5 1 10) ∈ (fromBlock10.play (twoChunks 10)).store.log ∧
    (fromBlock10.play (twoChunks 10)).store.log.count (.handled .outbox (Sample.claimed 5 1 10)) ≤
      (sampleChain 10 .outbox).count (Sample.claimed 5 1 10) :=
  ⟨by decide +kernel, by decide +kernel,
    (handled_once Sample.route reachable_careful .outbox (Sample.claimed 5 1 10)).1⟩

/-- The first chunk ends with block 30, the second begins with it, and its one log is handled
twice. -/
theorem handled_twice : ∃ c, (system (sampleChain 30) (fun _ => 10) Sample.route).Reachable c ∧
    (sampleChain 30 .outbox).count (Sample.claimed 5 1 30) = 1 ∧
    c.store.log.count (.handled .outbox (Sample.claimed 5 1 30)) = 2 := by
  refine ⟨fromBlock10.play (twoChunks 30), ?_, by decide +kernel, by decide +kernel⟩
  refine System.reachable_play Sample.mem_roles (fun x hx q w => ?_)
    (.init initialised_fromBlock10 (boot_fromBlock10 _)) (by decide +kernel)
  obtain ⟨now, rfl⟩ := mem_twoChunks hx
  exact faithful_sampleNode 30 now _ q w

end Twice

end VeaValidator
