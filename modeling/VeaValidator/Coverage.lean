import VeaValidator.Scanning
import VeaValidator.Changes

/-!
No log is lost.

A sync starts at the first block that is not before `indexingSince`; from there on the cursor of
a chain moves over its blocks chunk by chunk, and it moves only when all logs of the chunk have been
handled. A crash loses what the handlers of the current chunk have done as far as the cursor
knows, and nothing else.
-/

namespace VeaValidator

open Coop

/-- The history of a chain: the times of its blocks, and the logs the indexer subscribes to. -/
structure Chain where
  ts : ℕ → ℕ
  logs : List Log

namespace Coverage

/-! ### The nodes -/

section
variable (route : Route) (chains : ScanTarget → Chain)

/-- The heads are later than an `indexingSince` that is computed now. -/
def Later (w : World) : Prop :=
  ∀ target, (chains .inbox).ts (w.heads.get .inbox) - route.settings.syncLookbackSecs <
    (chains target).ts (w.heads.get (Indexer.provider target))

/-- A call may fail at any time. The blocks a node answers with are those of the chain, and to a
query that does not go beyond the head it answers with all logs of the chain. -/
def Faithful : Role → (q : Query) → q.Answer → World → Prop
  | .indexer, .blockByNumber p .latest, .ok (some b), w => ∀ target, p = Indexer.provider target →
    b.number = w.heads.get p ∧ b.timestamp = (chains target).ts b.number ∧
      (target = .inbox → Later route chains w)
  | .indexer, .blockByNumber p (.number n), .ok (some b), _ =>
    ∀ target, p = Indexer.provider target → b.timestamp = (chains target).ts n
  | .indexer, .logs p f, .ok logs, w => ∀ target, p = Indexer.provider target →
    f.toBlock ≤ w.heads.get p → ∀ log ∈ (chains target).logs,
      log.Within f.fromBlock f.toBlock → log ∈ logs
  | _, _, _, _ => True

end

/-! ### The cursors in the log -/

/-- A chunk has been scanned since the last `initialize_sync`. -/
def scannedSince (target : ScanTarget) : List Obs → Bool
  | [] => false
  | .scanned target' _ _ _ :: log => decide (target' = target) || scannedSince target log
  | .initializedSync _ _ _ :: _ => false
  | _ :: log => scannedSince target log

/-- A line that says nothing about the cursors. -/
def Plain : Obs → Prop
  | .scanned _ _ _ _ | .initializedSync _ _ _ => False
  | _ => True

lemma scannedSince_cons {target : ScanTarget} {o : Obs} {log : List Obs} (ho : Plain o) :
    scannedSince target (o :: log) = scannedSince target log := by
  cases o <;> first | rfl | exact ho.elim

lemma scannedSince_append {target : ScanTarget} {new log : List Obs} (h : ∀ o ∈ new, Plain o) :
    scannedSince target (new ++ log) = scannedSince target log := by
  induction new with
  | nil => rfl
  | cons o new ih =>
    rw [List.cons_append, scannedSince_cons (h o List.mem_cons_self),
      ih fun o ho => h o (List.mem_cons_of_mem _ ho)]

/-- Unless a sync is initialised in between, the cursor does not move backwards, and a chunk that
is scanned moves it on. -/
def Forward (target : ScanTarget) (s t : World) : Prop :=
  ∃ new, t.log = new ++ s.log ∧ ((∀ since a b, .initializedSync since a b ∉ new) →
    ∀ cursor, s.lastBlock target = some cursor → ∃ cursor', t.lastBlock target = some cursor' ∧
      cursor ≤ cursor' ∧ ((∃ a b logs, .scanned target a b logs ∈ new) → cursor < cursor'))

variable {route : Route} {chains : ScanTarget → Chain} {target : ScanTarget} {s t u : World}

lemma Forward.refl (s : World) : Forward target s s :=
  ⟨[], rfl, fun _ cursor hc => ⟨cursor, hc, le_rfl, nofun⟩⟩

lemma Forward.trans (h : Forward target s t) (h' : Forward target t u) : Forward target s u := by
  obtain ⟨new, hlog, hgo⟩ := h
  obtain ⟨new', hlog', hgo'⟩ := h'
  refine ⟨new' ++ new, by rw [hlog', hlog, List.append_assoc], fun hsync cursor hc => ?_⟩
  obtain ⟨c₁, hc₁, hle₁, hlt₁⟩ :=
    hgo (fun since a b hm => hsync since a b (List.mem_append_right _ hm)) cursor hc
  obtain ⟨c₂, hc₂, hle₂, hlt₂⟩ :=
    hgo' (fun since a b hm => hsync since a b (List.mem_append_left _ hm)) c₁ hc₁
  refine ⟨c₂, hc₂, hle₁.trans hle₂, ?_⟩
  rintro ⟨a, b, logs, hm⟩
  rcases List.mem_append.mp hm with hm | hm
  · exact hle₁.trans_lt (hlt₂ ⟨a, b, logs, hm⟩)
  · exact (hlt₁ ⟨a, b, logs, hm⟩).trans_le hle₂

/-! ### Writes that leave the cursors alone -/

/-- The cursors, the targets and the heads stay, and the log grows by plain lines. -/
structure Frame (s t : World) : Prop where
  cursor : ∀ target, t.lastBlock target = s.lastBlock target
  since : t.schedule.indexingSince = s.schedule.indexingSince
  catchup : ∀ target, t.catchup target = s.catchup target
  heads : t.heads = s.heads
  log : ∃ new, t.log = new ++ s.log ∧ ∀ o ∈ new, Plain o

lemma frame_of_log (s t : World) (hcursor : ∀ target, t.lastBlock target = s.lastBlock target)
    (hsince : t.schedule.indexingSince = s.schedule.indexingSince)
    (hcatchup : ∀ target, t.catchup target = s.catchup target) (hheads : t.heads = s.heads)
    (hlog : t.log = s.log ∨ ∃ o, Plain o ∧ t.log = o :: s.log) : Frame s t := by
  refine ⟨hcursor, hsince, hcatchup, hheads, ?_⟩
  rcases hlog with hlog | ⟨o, ho, hlog⟩
  · exact ⟨[], hlog, nofun⟩
  · exact ⟨[o], hlog, fun o' ho' => by rwa [List.mem_singleton.mp ho']⟩

lemma frame_note (w : World) {o : Obs} (ho : Plain o) : Frame w (w.note o) :=
  frame_of_log _ _ (fun _ => rfl) rfl (fun _ => rfl) rfl (.inr ⟨o, ho, rfl⟩)

lemma frame_setOnSync (w : World) (b : Bool) : Frame w (w.setOnSync b) :=
  frame_of_log _ _ (fun _ => rfl) rfl (fun _ => rfl) rfl (.inl rfl)

/-- No handler and no task touches a cursor. -/
lemma frame_of_change (h : Change s t) : Frame s t := by
  refine frame_of_log s t h.lastBlock h.indexingSince h.catchup h.heads ?_
  rcases h.log with hlog | ⟨o, ho, hlog⟩
  · exact .inl hlog
  · refine .inr ⟨o, ?_, hlog⟩
    cases o <;> trivial

lemma Frame.handled (h : Frame s t) {log : Log} (hm : .handled target log ∈ s.log) :
    .handled target log ∈ t.log := by
  obtain ⟨new, hlog, -⟩ := h.log
  rw [hlog]
  exact List.mem_append_right _ hm

lemma Frame.forward (h : Frame s t) (target : ScanTarget) : Forward target s t := by
  obtain ⟨new, hlog, hplain⟩ := h.log
  refine ⟨new, hlog, fun _ cursor hc => ⟨cursor, by rw [h.cursor, hc], le_rfl, ?_⟩⟩
  rintro ⟨a, b, logs, hm⟩
  exact (hplain _ hm).elim

/-- The rules of a program that leaves the cursors alone, and needs none. -/
abbrev frame : Protocol Unit World Panic Query.Answer :=
  .loose Frame (fun _ _ => True) fun p _ => ∀ target, p ≠ .lastBlockNotSet target

abbrev Framed {α : Type} (p : M α) : Prop := Prog.Keeps frame () (fun _ => True) p

/-- A write of the indexer's loop. -/
lemma framed_modify {f : World → World} (h : ∀ w, Frame w (f w)) : Framed (Prog.modify f) :=
  fun w _ _ => ⟨h w, trivial, trivial, trivial⟩

lemma framed_of_changing {α : Type} {p : M α} (h : Changing p) : Framed p :=
  .of_loose h (fun _ _ _ _ _ => trivial)
    (fun _ _ _ _ hc => ⟨frame_of_change hc, trivial, trivial, trivial⟩)
    (fun _ _ _ _ _ => trivial) fun _ _ _ _ hF => hF

lemma framed_dispatch (target : ScanTarget) (log : Log) :
    Framed (Indexer.dispatch route target log) := framed_of_changing (changing_dispatch target log)

lemma framed_run (n : ℕ) : Framed (Dispatcher.run route n) := framed_of_changing (changing_run n)

/-! ### The invariant -/

variable (chains) in
/-- What the claim about a log speaks of: it is in a block that has been scanned. -/
def Due (target : ScanTarget) (log : Log) (w : World) : Prop :=
  ∃ since cursor n, w.schedule.indexingSince = some since ∧ w.lastBlock target = some cursor ∧
    log ∈ (chains target).logs ∧ log.blockNumber = some n ∧ since ≤ (chains target).ts n ∧
    (n < cursor ∨ n = cursor ∧ scannedSince target w.log = true)

variable (chains) in
structure Inv (w : World) : Prop where
  set : (∃ since a b, .initializedSync since a b ∈ w.log) → ∀ target, w.lastBlock target ≠ none
  bound : ∀ target, (w.catchup target).target ≤ w.heads.get (Indexer.provider target)
  covered : ∀ target log, Due chains target log w → .handled target log ∈ w.log

/-- What moves no cursor and adds plain lines only. -/
lemma Inv.step (h : Inv chains s) (hcursor : ∀ target, t.lastBlock target = s.lastBlock target)
    (hsince : t.schedule.indexingSince = s.schedule.indexingSince)
    (hbound : ∀ target, (t.catchup target).target ≤ t.heads.get (Indexer.provider target))
    (hlog : ∃ new, t.log = new ++ s.log ∧ ∀ o ∈ new, Plain o) : Inv chains t := by
  obtain ⟨new, hlog, hplain⟩ := hlog
  refine ⟨?_, hbound, ?_⟩
  · rintro ⟨since, a, b, hm⟩ target
    rw [hcursor]
    rw [hlog] at hm
    rcases List.mem_append.mp hm with hm | hm
    · exact (hplain _ hm).elim
    · exact h.set ⟨since, a, b, hm⟩ target
  · rintro target log ⟨since, cursor, n, hs, hc, hl, hn, hts, hpos⟩
    rw [hsince] at hs
    rw [hcursor] at hc
    rw [hlog, scannedSince_append hplain] at hpos
    rw [hlog]
    exact List.mem_append_right _ (h.covered target log ⟨since, cursor, n, hs, hc, hl, hn, hts, hpos⟩)

lemma inv_frame (h : Inv chains s) (hf : Frame s t) : Inv chains t := by
  refine h.step hf.cursor hf.since (fun target => ?_) hf.log
  rw [hf.catchup, hf.heads]
  exact h.bound target

lemma inv_setCatchup {c : Catchup} (h : Inv chains s)
    (hc : c.target ≤ s.heads.get (Indexer.provider target)) :
    Inv chains (s.setCatchup target c) := by
  refine h.step (fun _ => World.lastBlock_setCatchup _ _ _ _) (by rw [World.schedule_setCatchup])
    (fun target' => ?_) ⟨[], by rw [World.log_setCatchup, List.nil_append], nofun⟩
  rw [World.catchup_setCatchup, World.heads_setCatchup]
  split
  · next ht =>
    rw [ht]
    exact hc
  · exact h.bound target'

lemma inv_grown (h : Inv chains s) (hg : Grown s t) : Inv chains t := by
  obtain ⟨hheads, heq⟩ := hg
  refine h.step (fun _ => by rw [heq]; rfl) (by rw [heq]) (fun target => ?_)
    ⟨[], by rw [heq, List.nil_append], nofun⟩
  have hcatchup : t.catchup target = s.catchup target := by rw [heq]; rfl
  rw [hcatchup]
  exact (h.bound target).trans (hheads _)

lemma inv_restarted (h : Inv chains s) (hr : Restarted s t) : Inv chains t := by
  obtain ⟨onSync, rfl⟩ := hr
  refine h.step (fun _ => rfl) rfl (fun target => ?_) ⟨[], rfl, nofun⟩
  cases target <;> exact Nat.zero_le _

/-- The cursor moves to the end of a chunk whose logs have all been handled. -/
lemma inv_updateBlock {fromBlock toBlock : ℕ} (logs : List Log) (h : Inv chains s)
    (hcursor : s.lastBlock target = some fromBlock)
    (hdone : ∀ log ∈ (chains target).logs, log.Within fromBlock toBlock →
      .handled target log ∈ s.log) :
    Inv chains (s.updateBlock target fromBlock toBlock logs) := by
  refine ⟨?_, h.bound, ?_⟩
  · rintro ⟨since, a, b, hm⟩ target'
    rw [World.log_updateBlock] at hm
    have hm' : Obs.initializedSync since a b ∈ s.log := by simpa using hm
    rw [World.lastBlock_updateBlock]
    split
    · exact Option.some_ne_none toBlock
    · exact h.set ⟨since, a, b, hm'⟩ target'
  · rintro target' log ⟨since, cursor, n, hs, hc, hl, hn, hts, hpos⟩
    rw [World.indexingSince_updateBlock] at hs
    rw [World.lastBlock_updateBlock] at hc
    rw [World.log_updateBlock] at hpos ⊢
    refine List.mem_cons_of_mem _ ?_
    by_cases ht : target' = target
    · subst ht
      rw [if_pos rfl, Option.some.injEq] at hc
      subst hc
      rcases Nat.lt_or_ge n fromBlock with hlt | hge
      · exact h.covered target' log ⟨since, fromBlock, n, hs, hcursor, hl, hn, hts, .inl hlt⟩
      · have hle : n ≤ toBlock := by omega
        exact hdone log hl ⟨n, hn, hge, hle⟩
    · rw [if_neg ht] at hc
      have hsame : scannedSince target' (.scanned target fromBlock toBlock logs :: s.log) =
          scannedSince target' s.log := by
        rw [scannedSince, decide_eq_false (Ne.symm ht), Bool.false_or]
      rw [hsame] at hpos
      exact h.covered target' log ⟨since, cursor, n, hs, hc, hl, hn, hts, hpos⟩

/-- A sync starts where nothing before it is due. -/
lemma inv_initializeSync {since inboxBlock outboxBlock : ℕ} (h : Inv chains s)
    (hinbox : ∀ n < inboxBlock, (chains .inbox).ts n < since)
    (houtbox : ∀ n < outboxBlock, (chains .outbox).ts n < since) :
    Inv chains (s.initializeSync since inboxBlock outboxBlock) := by
  refine ⟨fun _ target => ?_, h.bound, ?_⟩
  · cases target <;> exact Option.some_ne_none _
  · rintro target log ⟨since', cursor, n, hs, hc, -, -, hts, hpos⟩
    obtain rfl : since = since' := Option.some.inj hs
    rcases hpos with hlt | ⟨-, hscanned⟩
    · have hbefore : (chains target).ts n < since := by
        cases target with
        | inbox =>
          obtain rfl : inboxBlock = cursor := Option.some.inj hc
          exact hinbox n hlt
        | outbox =>
          obtain rfl : outboxBlock = cursor := Option.some.inj hc
          exact houtbox n hlt
      exact absurd hts (Nat.not_le.mpr hbefore)
    · cases hscanned

/-! ### The protocol -/

/-- What the dispatcher and the chains leave as it is. -/
structure Others (s t : World) : Prop where
  cursor : ∀ target, t.lastBlock target = s.lastBlock target
  heads : ∀ p, s.heads.get p ≤ t.heads.get p
  handled : ∀ target log, .handled target log ∈ s.log → .handled target log ∈ t.log

lemma Others.refl (s : World) : Others s s := ⟨fun _ => rfl, fun _ => le_rfl, fun _ _ h => h⟩

lemma Others.trans (h : Others s t) (h' : Others t u) : Others s u :=
  ⟨fun target => (h'.cursor target).trans (h.cursor target),
    fun p => (h.heads p).trans (h'.heads p),
    fun target log hm => h'.handled target log (h.handled target log hm)⟩

lemma Frame.others (h : Frame s t) : Others s t :=
  ⟨h.cursor, fun p => by rw [h.heads], fun _ _ hm => h.handled hm⟩

variable (route chains) in
/-- The invariant holds after every write, so it outlives a crash. -/
@[simps]
def protocol : Protocol Role World Panic Query.Answer where
  inv := Inv chains
  durable := Inv chains
  rely
    | .indexer, s, t => Others s t
    | .dispatcher, _, _ => True
  guar
    | .indexer, s, t => ∀ target, Forward target s t
    | .dispatcher, s, t => Frame s t
  answer := Faithful route chains
  issue _ _ _ := True
  fault
    | .indexer, p, _ => ∀ target, p ≠ .lastBlockNotSet target
    | .dispatcher, _, _ => True

/-- The cursors are there. -/
def Running (w : World) : Prop := ∀ target, w.lastBlock target ≠ none

lemma Running.others (h : Running s) (hc : Others s t) : Running t := fun target => by
  rw [hc.cursor]
  exact h target

lemma patient {J : World → Prop} (h : ∀ s t, J s → Others s t → J t) :
    Patient (protocol route chains) .indexer J where
  rely s t hJ ht _ := h s t hJ ht
  issue _ _ _ _ _ := trivial
  fault p _ hp _ _ target := by
    rintro rfl
    exact hp

/-- A program that leaves the cursors alone keeps what the others keep. -/
lemma keeps_framed {α : Type} {p : M α} (hp : Framed p) {J : World → Prop}
    (h : ∀ s t, J s → Others s t → J t) : Prog.Keeps (protocol route chains) .indexer J p :=
  .of_loose hp (fun s t hJ ht _ => h s t hJ ht)
    (fun s t hI hJ hf => ⟨hf.forward, inv_frame hI hf, inv_frame hI hf, h s t hJ hf.others⟩)
    (fun _ _ _ _ _ => trivial) fun _ _ _ _ hF => hF

/-! ### A chunk -/

/-- The logs of the answer are handled or still to come, and the cursor waits. -/
structure Chunk (target : ScanTarget) (fromBlock : ℕ) (logs l : List Log) (w : World) : Prop where
  running : Running w
  cursor : w.lastBlock target = some fromBlock
  handled : ∀ log ∈ logs, log ∈ l ∨ .handled target log ∈ w.log

lemma Chunk.others {fromBlock : ℕ} {logs l : List Log} (h : Chunk target fromBlock logs l s)
    (hc : Others s t) : Chunk target fromBlock logs l t :=
  ⟨h.running.others hc, by rw [hc.cursor, h.cursor],
    fun log hl => (h.handled log hl).imp_right (hc.handled target log)⟩

lemma wp_handle {fromBlock : ℕ} {logs l : List Log} {log : Log} (hI : Inv chains s)
    (h : Chunk target fromBlock logs (log :: l) s) :
    (Indexer.handle route target log).wp (protocol route chains) .indexer
      (fun _ t => Inv chains t ∧ Chunk target fromBlock logs l t) s := by
  have hkeeps : Prog.Keeps (protocol route chains) .indexer (Chunk target fromBlock logs (log :: l))
      (Indexer.dispatch route target log) :=
    keeps_framed (framed_dispatch target log) fun _ _ hJ hc => hJ.others hc
  refine Indexer.wp_handle (hkeeps s hI h) ?_
  rintro t ⟨hIt, ht⟩
  have hf : Frame t (t.note (.handled target log)) := frame_note t trivial
  have ht' := ht.others hf.others
  refine ⟨hf.forward, inv_frame hIt hf, inv_frame hIt hf, ht'.running, ht'.cursor, fun x hx => ?_⟩
  rcases ht'.handled x hx with hx | hx
  · rcases List.mem_cons.mp hx with rfl | hx
    · exact .inr List.mem_cons_self
    · exact .inl hx
  · exact .inr hx

lemma wp_chunk {fromBlock toBlock : ℕ} {logs : List Log} (hlt : fromBlock < toBlock)
    (hI : Inv chains s) (hJ : Running s) (hcursor : s.lastBlock target = some fromBlock)
    (hlogs : ∀ log ∈ (chains target).logs, log.Within fromBlock toBlock → log ∈ logs) :
    ((do
      forM logs (Indexer.handle route target)
      TaskStore.updateBlock target fromBlock toBlock logs) : M Unit).wp (protocol route chains)
        .indexer (fun _ t => Inv chains t ∧ Running t) s := by
  rw [Prog.wp_bind]
  refine Prog.wp_mono ?_ (Prog.wp_forM (J := fun l t => Inv chains t ∧
    Chunk target fromBlock logs l t) (fun log l t ht => wp_handle ht.1 ht.2)
    ⟨hI, hJ, hcursor, fun log hl => .inl hl⟩)
  rintro _ t ⟨hIt, ht⟩
  have hdone : ∀ log ∈ (chains target).logs, log.Within fromBlock toBlock →
      .handled target log ∈ t.log := fun log hl hw =>
    (ht.handled log (hlogs log hl hw)).resolve_left nofun
  have hI' := inv_updateBlock logs hIt ht.cursor hdone
  refine ⟨fun target' => ⟨[.scanned target fromBlock toBlock logs], rfl, fun _ cursor hc => ?_⟩,
    hI', hI', fun target' => ?_⟩
  · rw [World.lastBlock_updateBlock]
    by_cases htarget : target' = target
    · subst htarget
      rw [ht.cursor, Option.some.injEq] at hc
      subst hc
      exact ⟨toBlock, if_pos rfl, hlt.le, fun _ => hlt⟩
    · refine ⟨cursor, by rw [if_neg htarget, hc], le_rfl, ?_⟩
      rintro ⟨a, b, logs', hm⟩
      cases List.mem_singleton.mp hm
      exact absurd rfl htarget
  · rw [World.lastBlock_updateBlock]
    split
    · exact Option.some_ne_none toBlock
    · exact ht.running target'

lemma scans (target : ScanTarget) :
    Indexer.Scans (protocol route chains) .indexer target Running where
  toPatient := patient fun _ _ h hc => h.others hc
  cursor _ _ h := h target
  own _ _ h := h.cursor target
  heads _ _ h := h.heads _
  latest b t _ h := (h target rfl).1.le
  bound _ hI _ := hI.bound target
  set c s hI hJ hc := by
    have hI' := inv_setCatchup hI hc
    refine ⟨fun target' => ⟨[], by rw [World.log_setCatchup, List.nil_append], fun _ cursor hcur =>
      ⟨cursor, by rw [World.lastBlock_setCatchup, hcur], le_rfl, nofun⟩⟩, hI', hI', fun target' => ?_⟩
    rw [World.lastBlock_setCatchup]
    exact hJ target'

lemma wp_run (n : ℕ) (hI : Inv chains s) (hJ : Running s) :
    (Indexer.run route n).wp (protocol route chains) .indexer
      (fun _ t => Inv chains t ∧ Running t) s := by
  refine Indexer.wp_run (scans .inbox).toPatient (fun target t hIt hJt => ?_)
    (keeps_framed (framed_modify fun w => frame_setOnSync w true) fun _ _ h hc => h.others hc)
    n hI hJ
  exact Indexer.wp_scanChain (scans target) (fun fromBlock toBlock logs u hlt hto hfrom ha hIu hJu =>
    wp_chunk hlt hIu hJu hfrom (ha target rfl hto)) hIt hJt

/-! ### Starting -/

/-- The block search of a sync finds the first block that is not before `since`. -/
lemma wp_findFirst (target : ScanTarget) (hmono : Monotone (chains target).ts) {since : ℕ} {J : World → Prop}
    (hJ' : ∀ s t, J s → Others s t → J t)
    (hlater : ∀ s, J s → since < (chains target).ts (s.heads.get (Indexer.provider target)))
    (hI : Inv chains s) (hJ : J s) :
    (findBlockByTimestamp (Indexer.provider target) since).wp (protocol route chains) .indexer
      (fun r t => (∀ n < r, (chains target).ts n < since) ∧ Inv chains t ∧ J t) s := by
  refine Prog.wp_mono ?_ (wp_findBlockByTimestamp (L := fun n => since < (chains target).ts n)
    (patient hJ') hmono (fun b t _ hJt ha => ?_) (fun n b t _ _ ha => ha target rfl) hI hJ)
  · rintro r t ⟨⟨latest, hlt, -, hr⟩, hIt, hJt⟩
    rcases hr with ⟨hle, -⟩ | ⟨-, -, hbelow⟩
    · exact absurd hle (Nat.not_le.mpr hlt)
    · exact ⟨hbelow, hIt, hJt⟩
  · obtain ⟨hnumber, hts, -⟩ := ha target rfl
    refine ⟨?_, hts⟩
    rw [hnumber]
    exact hlater t hJt

lemma later_others (hmono : ∀ target, Monotone (chains target).ts) {since : ℕ}
    (h : ∀ target, since < (chains target).ts (s.heads.get (Indexer.provider target)))
    (hc : Others s t) (target : ScanTarget) :
    since < (chains target).ts (t.heads.get (Indexer.provider target)) :=
  (h target).trans_le (hmono target (hc.heads _))

/-- After `initialize` the cursors are there. -/
lemma wp_initializeIndexer (hmono : ∀ target, Monotone (chains target).ts) (hI : Inv chains s) :
    (Indexer.initializeIndexer route).wp (protocol route chains) .indexer
      (fun _ t => Inv chains t ∧ Running t) s := by
  have hf : Frame s (s.setOnSync false) := frame_setOnSync s false
  have hstay : ∀ t u : World, (∀ target, t.lastBlock target = s.lastBlock target) → Others t u →
      ∀ target, u.lastBlock target = s.lastBlock target :=
    fun t u h hc target => (hc.cursor target).trans (h target)
  refine Indexer.wp_initializeIndexer (patient hstay) (B := fun now t => ∀ target,
    now - route.settings.syncLookbackSecs <
      (chains target).ts (t.heads.get (Indexer.provider target)))
    ⟨hf.forward, inv_frame hI hf⟩ (inv_frame hI hf) hf.cursor (fun b t _ _ ha target => ?_)
    (fun now t u h hc _ => later_others hmono h hc) (fun hin hout t hIt ht => ?_)
    fun now t hlater hIt _ => ?_
  · obtain ⟨hnumber, hts, hlater⟩ := ha .inbox rfl
    have hl := hlater rfl target
    rw [hts, hnumber]
    exact hl
  · refine ⟨hIt, fun target => ?_⟩
    rw [ht target]
    cases target with
    | inbox => exact hin
    | outbox => exact hout
  · rw [Prog.wp_bind]
    refine Prog.wp_mono ?_ (wp_findFirst .inbox (hmono .inbox)
      (fun _ _ h hc => later_others hmono h hc) (fun _ h => h .inbox) hIt hlater)
    rintro inboxStart u ⟨hin, hIu, hu⟩
    rw [Prog.wp_bind]
    refine Prog.wp_mono ?_ (wp_findFirst .outbox (hmono .outbox)
      (fun _ _ h hc => later_others hmono h hc) (fun _ h => h .outbox) hIu hu)
    rintro outboxStart v ⟨hout, hIv, -⟩
    have hIv' := inv_initializeSync hIv hin hout
    refine ⟨fun target => ⟨[.initializedSync _ inboxStart outboxStart], rfl, fun hno => ?_⟩,
      hIv', hIv', fun target => ?_⟩
    · exact absurd List.mem_cons_self (hno _ _ _)
    · cases target <;> exact Option.some_ne_none _

/-! ### The runs -/

/-- A route that has never run. -/
def Fresh (w : World) : Prop := w = { heads := w.heads }

/-- The route initialises and scans, on chains whose heads grow, and is started again after any
crash. -/
def system (route : Route) (chains : ScanTarget → Chain) : System Role World Panic Query.Answer :=
  scanSystem route (Indexer.initializeIndexer route) Fresh (Faithful route chains) Restarted

theorem covers (route : Route) {chains : ScanTarget → Chain}
    (hmono : ∀ target, Monotone (chains target).ts) :
    (protocol route chains).Covers (system route chains) where
  rely_refl i s := by
    cases i with
    | indexer => exact Others.refl s
    | dispatcher => trivial
  rely_trans i s t u hst htu := by
    cases i with
    | indexer => exact Others.trans hst htu
    | dispatcher => trivial
  guar_rely := Role.guar_rely (fun _ _ _ => trivial) fun _ _ h => Frame.others h
  answer _ _ _ _ ha := ha
  env s t hst hI := by
    refine ⟨inv_grown hI hst, fun i => ?_⟩
    obtain ⟨hheads, heq⟩ := hst
    cases i with
    | dispatcher => trivial
    | indexer =>
      exact ⟨fun _ => by rw [heq]; rfl, hheads, fun _ _ hm => by rwa [heq]⟩
  init s hs := by
    rw [hs]
    refine ⟨nofun, fun target => ?_, ?_⟩
    · cases target <;> exact Nat.zero_le _
    · rintro target log ⟨since, cursor, n, hsince, -⟩
      cases hsince
  boot i p s t hp _ _ hI := by
    cases i with
    | indexer =>
      obtain ⟨n, rfl⟩ := hp
      rw [Prog.wp_bind]
      refine Prog.wp_mono ?_ (wp_initializeIndexer hmono hI)
      rintro _ u ⟨hIu, hu⟩
      exact Prog.wp_mono (fun _ v hv => hv.1) (wp_run n hIu hu)
    | dispatcher =>
      obtain ⟨n, rfl⟩ := hp
      have hkeeps : Prog.Keeps (protocol route chains) .dispatcher (fun _ => True)
          (Dispatcher.run route n) :=
        .of_loose (framed_run n) (fun _ _ _ _ _ => trivial)
          (fun _ _ hIs _ hf => ⟨hf, inv_frame hIs hf, inv_frame hIs hf, trivial⟩)
          (fun _ _ _ _ _ => trivial) fun _ _ _ _ _ => trivial
      exact Prog.wp_mono (fun _ u hu => hu.1) (hkeeps t hI trivial)
  durable _ h := h
  restart _ _ h hr := inv_restarted h hr

def sampleRoute : Route :=
  { Sample.route with settings := { Sample.route.settings with syncLookbackSecs := 2000 } }

/-- Block `n` is at time `10 n`, and block 250 of the outbox has a claim. -/
def sampleChains : ScanTarget → Chain
  | .inbox => ⟨(10 * ·), []⟩
  | .outbox => ⟨(10 * ·), [Sample.claimed 5 1 250]⟩

lemma monotone_sampleChains (target : ScanTarget) : Monotone (sampleChains target).ts := by
  cases target <;> exact fun _ _ h => Nat.mul_le_mul_left 10 h

def sampleHeads : Heads := ⟨400, 400, 400⟩

def sampleNode : (q : Query) → q.Answer
  | .blockNumber _ => .ok 400
  | .logs .outbox f =>
    .ok ((sampleChains .outbox).logs.filter fun log => log.Within f.fromBlock f.toBlock)
  | .logs _ _ => .ok []
  | q => Sample.node 4000 0 q

lemma faithful_sampleNode (hs : s.heads = sampleHeads) (i : Role) (q : Query) :
    Faithful sampleRoute sampleChains i q (sampleNode q) s := by
  have hhead : ∀ p, s.heads.get p = 400 := by
    intro p
    rw [hs]
    cases p <;> rfl
  cases i with
  | dispatcher => cases q <;> trivial
  | indexer =>
    cases q with
    | blockByNumber p n =>
      cases n with
      | finalized => trivial
      | latest =>
        intro target _
        refine ⟨(hhead p).symm, by cases target <;> rfl, fun _ target' => ?_⟩
        rw [hhead, hhead]
        cases target' <;> decide
      | number n =>
        intro target _
        cases target <;> rfl
    | logs p f =>
      cases p with
      | inbox =>
        rintro (_ | _) hp _ log hl _
        · cases hl
        · cases hp
      | outbox =>
        rintro (_ | _) hp _ log hl hw
        · cases hp
        · exact List.mem_filter.mpr ⟨hl, decide_eq_true hw⟩
      | ethereum =>
        rintro (_ | _) hp
        · cases hp
        · cases hp
    | _ => trivial

/-- The route with one turn of its loop to make. -/
def fresh : Config Role World Panic Query.Answer where
  store := { heads := sampleHeads }
  thread
    | .indexer => Indexer.initializeIndexer sampleRoute >>= fun _ => Indexer.run sampleRoute 1
    | .dispatcher => Dispatcher.run sampleRoute 1

/-- Both chains have been scanned up to block 280. -/
def synced : Config Role World Panic Query.Answer :=
  fresh.play (Sample.times 46 .indexer sampleNode)

end Coverage

end VeaValidator
