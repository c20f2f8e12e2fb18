import VeaValidator.Coop.Talk
import VeaValidator.Finality
import VeaValidator.Scanning
import Mathlib.Order.Bounds.Basic
import Mathlib.Order.Interval.Set.Defs
import Mathlib.Order.Monotone.Defs

/-!
What the two searches find.

The search for a time bisects the blocks of a chain. The search for a batch goes through the L1
blocks page by page, from the block of a time on; it stops in front of the head when a page would
begin there, and after ten pages.
-/

namespace VeaValidator

open Coop

/-- The logs an `eth_getLogs` call with this filter returns. -/
def Filter.Selects (f : Filter) (log : Log) : Prop :=
  (∃ sig ∈ f.eventSignature, log.topics.head? = some sig) ∧
    (f.topic1 = none ∨ log.topics[1]? = f.topic1) ∧ log.Within f.fromBlock f.toBlock

instance (f : Filter) (log : Log) : Decidable (f.Selects log) :=
  inferInstanceAs (Decidable (_ ∧ _ ∧ _))

namespace Searches

open Finality (Located OnPage)

variable {provider : Provider} {ts : ℕ → ℕ} {latest target : ℕ} {rely : World → World → Prop}
  {s t : World} {l : List ((q : Query) × q.Answer)}

/-! ### The search for a time -/

/-- The answers of a node whose chain has the blocks `0` to `latest`. -/
def Serves (provider : Provider) (ts : ℕ → ℕ) (latest : ℕ) : (q : Query) → q.Answer → Prop
  | .blockByNumber p .latest, a => p = provider → a = .ok (some ⟨latest, ts latest⟩)
  | .blockByNumber p (.number n), a => p = provider → n ≤ latest → a = .ok (some ⟨n, ts n⟩)
  | _, _ => True

/-- The question is for the head, or for a block that is not beyond it. -/
def InRange (provider : Provider) (latest : ℕ) (q : Query) : Prop :=
  q = .blockByNumber provider .latest ∨ ∃ n ≤ latest, q = .blockByNumber provider (.number n)

lemma talks_getBlockWithRetry {block : BlockNumberOrTag} {b : Header} {res : Except Panic Header}
    (h : (getBlockWithRetry provider block).Talks rely s l res t)
    (hl : ∀ a, ⟨.blockByNumber provider block, a⟩ ∈ l → a = .ok (some b)) :
    res = .ok b ∧ ∀ x ∈ l, x.1 = .blockByNumber provider block := by
  obtain ⟨u, -, a, l', rfl, h⟩ := h
  obtain rfl := hl a List.mem_cons_self
  obtain ⟨rfl, rfl, -⟩ := h
  refine ⟨rfl, fun x hx => ?_⟩
  rw [List.mem_singleton.mp hx]

/-- The interval has become one block. -/
lemma talks_bisected {lo hi : ℕ} (hlh : lo = hi) (hhi : hi ≤ latest) (hbelow : ∀ c < lo, ts c < target)
    (hat : target ≤ ts hi) {res : Except Panic ℕ}
    (h : (pure lo : M ℕ).Talks rely s l res t) :
    (∃ r ≤ latest, res = .ok r ∧ IsFirstAt ts target r) ∧ ∀ x ∈ l, InRange provider latest x.1 := by
  subst hlh
  obtain ⟨rfl, rfl, -⟩ := h
  exact ⟨⟨lo, hhi, rfl, hat, hbelow⟩, fun x hx => by cases hx⟩

/-- **The bisection.** All blocks below `lo` are before the target, the block `hi` is not. -/
lemma talks_bisect (hmono : MonotoneOn ts (Set.Iic latest)) {fuel lo hi : ℕ} (hlh : lo ≤ hi)
    (hhi : hi ≤ latest) (hfuel : hi - lo ≤ fuel) (hbelow : ∀ c < lo, ts c < target)
    (hat : target ≤ ts hi) {res : Except Panic ℕ}
    (h : (bisect provider target fuel lo hi).Talks rely s l res t)
    (hl : ∀ x ∈ l, Serves provider ts latest x.1 x.2) :
    (∃ r ≤ latest, res = .ok r ∧ IsFirstAt ts target r) ∧ ∀ x ∈ l, InRange provider latest x.1 := by
  induction fuel generalizing lo hi s l with
  | zero => exact talks_bisected (by omega) hhi hbelow hat h
  | succ fuel ih =>
    rw [bisect] at h
    by_cases hlt : lo < hi
    · rw [if_pos hlt] at h
      have hmid : lo + (hi - lo) / 2 < hi := by omega
      have hserved : ∀ a, ⟨.blockByNumber provider (.number (lo + (hi - lo) / 2)), a⟩ ∈ l →
          a = .ok (some ⟨lo + (hi - lo) / 2, ts (lo + (hi - lo) / 2)⟩) :=
        fun a ha => hl _ ha rfl (by omega)
      rcases Prog.talks_bind.mp h with ⟨b, u, l₁, l₂, rfl, hget, hrest⟩ | ⟨e, -, hget⟩
      · obtain ⟨hb, hasked⟩ := talks_getBlockWithRetry hget fun a ha =>
          hserved a (List.mem_append_left l₂ ha)
        obtain rfl := Except.ok.inj hb
        have hrange : ∀ x ∈ l₁, InRange provider latest x.1 := fun x hx =>
          .inr ⟨_, by omega, hasked x hx⟩
        have hl₂ : ∀ x ∈ l₂, Serves provider ts latest x.1 x.2 := fun x hx =>
          hl x (List.mem_append_right l₁ hx)
        have hend : (∃ r ≤ latest, res = .ok r ∧ IsFirstAt ts target r) ∧
            ∀ x ∈ l₂, InRange provider latest x.1 := by
          by_cases hbefore : ts (lo + (hi - lo) / 2) < target
          · rw [if_pos hbefore] at hrest
            have hup : ∀ c < lo + (hi - lo) / 2 + 1, ts c < target := fun c hc =>
              (hmono (Set.mem_Iic.mpr (by omega)) (Set.mem_Iic.mpr (by omega)) (by omega)).trans_lt
                hbefore
            exact ih (by omega) hhi (by omega) hup hat hrest hl₂
          · rw [if_neg hbefore] at hrest
            exact ih (by omega) (by omega) (by omega) hbelow (by omega) hrest hl₂
        refine ⟨hend.1, fun x hx => ?_⟩
        rcases List.mem_append.mp hx with hx | hx
        · exact hrange x hx
        · exact hend.2 x hx
      · obtain ⟨hb, -⟩ := talks_getBlockWithRetry hget hserved
        cases hb
    · rw [if_neg hlt] at h
      exact talks_bisected (by omega) hhi hbelow hat h

/-- **The search, talk by talk.** -/
lemma talks_findBlockByTimestamp (hmono : MonotoneOn ts (Set.Iic latest)) {res : Except Panic ℕ}
    (h : (findBlockByTimestamp provider target).Talks rely s l res t)
    (hl : ∀ x ∈ l, Serves provider ts latest x.1 x.2) :
    (∃ r ≤ latest, res = .ok r ∧ Located ts latest target r) ∧
      ∀ x ∈ l, InRange provider latest x.1 := by
  have hserved : ∀ a, ⟨.blockByNumber provider .latest, a⟩ ∈ l → a = .ok (some ⟨latest, ts latest⟩) :=
    fun a ha => hl _ ha rfl
  rcases Prog.talks_bind.mp h with ⟨b, u, l₁, l₂, rfl, hget, hrest⟩ | ⟨e, -, hget⟩
  · obtain ⟨hb, hasked⟩ := talks_getBlockWithRetry hget fun a ha =>
      hserved a (List.mem_append_left l₂ ha)
    obtain rfl := Except.ok.inj hb
    have hrange : ∀ x ∈ l₁, InRange provider latest x.1 := fun x hx => .inl (hasked x hx)
    have hend : (∃ r ≤ latest, res = .ok r ∧ Located ts latest target r) ∧
        ∀ x ∈ l₂, InRange provider latest x.1 := by
      by_cases hge : target ≥ ts latest
      · rw [if_pos hge] at hrest
        obtain ⟨rfl, rfl, -⟩ := hrest
        exact ⟨⟨latest, le_rfl, rfl, .inl ⟨hge, rfl⟩⟩, fun x hx => by cases hx⟩
      · rw [if_neg hge] at hrest
        obtain ⟨⟨r, hr, hres, hfirst⟩, hasked⟩ := talks_bisect hmono (Nat.zero_le latest) le_rfl
          (Nat.sub_le _ _) (fun c hc => absurd hc (Nat.not_lt_zero c)) (by omega) hrest
          fun x hx => hl x (List.mem_append_right l₁ hx)
        exact ⟨⟨r, hr, hres, .inr ⟨by omega, hfirst⟩⟩, hasked⟩
    refine ⟨hend.1, fun x hx => ?_⟩
    rcases List.mem_append.mp hx with hx | hx
    · exact hrange x hx
    · exact hend.2 x hx
  · obtain ⟨hb, -⟩ := talks_getBlockWithRetry hget hserved
    cases hb

/-- A later time is not found in an earlier block. -/
lemma located_mono {target' r r' : ℕ} (hle : target ≤ target') (hr : r ≤ latest)
    (h : Located ts latest target r) (h' : Located ts latest target' r') : r ≤ r' := by
  rcases h' with ⟨-, rfl⟩ | ⟨hlt', hat', -⟩
  · exact hr
  · rcases h with ⟨hge, -⟩ | ⟨-, -, hbelow⟩
    · omega
    · by_contra hcontra
      have hbefore : ts r' < target := hbelow r' (by omega)
      omega

/-- A node of that chain. -/
def chainNode (ts : ℕ → ℕ) (latest : ℕ) : (q : Query) → q.Answer
  | .blockByNumber _ .latest => .ok (some ⟨latest, ts latest⟩)
  | .blockByNumber _ (.number n) => .ok (some ⟨n, ts n⟩)
  | _ => .error "connection refused"

lemma serves_chainNode (q : Query) : Serves provider ts latest q (chainNode ts latest q) := by
  cases q with
  | blockByNumber p n =>
    cases n with
    | latest => exact fun _ => rfl
    | finalized => trivial
    | number n => exact fun _ _ => rfl
  | _ => trivial

/-- **The search finds the block of a time.** On a chain with the blocks `0` to `latest`, whose times
do not go down, it ends with the head when the head is not after the target, and with the first block
that is not before it otherwise. It asks for no block beyond the head, the interval is one block before
the turns of its loop have run out, and a later target gives a later block or the same. -/
theorem findBlockByTimestamp_exact (provider : Provider) {ts : ℕ → ℕ} {latest : ℕ}
    (hmono : MonotoneOn ts (Set.Iic latest)) (target : ℕ) :
    ∃ r ≤ latest, (ts latest ≤ target → r = latest) ∧
      (target < ts latest → IsFirstAt ts target r ∧ ∀ b, IsFirstAt ts target b → b = r) ∧
      (∀ s, ∃ l t, (findBlockByTimestamp provider target).Talks Eq s l (.ok r) t ∧
        ∀ x ∈ l, Serves provider ts latest x.1 x.2) ∧
      (∀ rely s l res t, (findBlockByTimestamp provider target).Talks rely s l res t →
        (∀ x ∈ l, Serves provider ts latest x.1 x.2) →
          res = .ok r ∧ ∀ x ∈ l, InRange provider latest x.1) ∧
      (∀ fuel ≥ latest, bisect provider target fuel 0 latest =
        bisect provider target latest 0 latest) ∧
      ∀ target' ≥ target, ∀ rely s l r' t,
        (findBlockByTimestamp provider target').Talks rely s l (.ok r') t →
        (∀ x ∈ l, Serves provider ts latest x.1 x.2) → r ≤ r' := by
  have hrun : ∀ s, ∃ l res t, (findBlockByTimestamp provider target).Talks Eq s l res t ∧
      ∀ x ∈ l, Serves provider ts latest x.1 x.2 := by
    intro s
    obtain ⟨l, hl, htalk⟩ := Prog.talks_eval Eq.refl (chainNode ts latest)
      (findBlockByTimestamp provider target) s
    refine ⟨l, _, _, htalk, fun x hx => ?_⟩
    rw [hl x hx]
    exact serves_chainNode x.1
  obtain ⟨l, res, t, htalk, hl⟩ := hrun {}
  obtain ⟨⟨r, hr, -, hlocated⟩, -⟩ := talks_findBlockByTimestamp hmono htalk hl
  have hresult : ∀ rely s l res t, (findBlockByTimestamp provider target).Talks rely s l res t →
      (∀ x ∈ l, Serves provider ts latest x.1 x.2) →
        res = .ok r ∧ ∀ x ∈ l, InRange provider latest x.1 := by
    intro rely s l res t htalk hl
    obtain ⟨⟨r', -, hres, hlocated'⟩, hasked⟩ := talks_findBlockByTimestamp hmono htalk hl
    obtain rfl := hlocated.unique hlocated'
    exact ⟨hres, hasked⟩
  refine ⟨r, hr, fun hge => ?_, fun hlt => ?_, fun s => ?_, hresult, fun fuel hfuel => ?_, ?_⟩
  · exact (hlocated.resolve_right fun h => absurd h.1 (by omega)).2
  · have hfirst : IsFirstAt ts target r := (hlocated.resolve_left fun h => absurd h.1 (by omega)).2
    exact ⟨hfirst, fun b hb => hb.unique hfirst⟩
  · obtain ⟨l, res, t, htalk, hl⟩ := hrun s
    obtain rfl := (hresult _ s l res t htalk hl).1
    exact ⟨l, t, htalk, hl⟩
  · exact bisect_fuel provider target (by omega) (by omega)
  · intro target' hle rely s l r' t htalk hl
    obtain ⟨⟨r'', -, hres, hlocated'⟩, -⟩ := talks_findBlockByTimestamp hmono htalk hl
    obtain rfl := Except.ok.inj hres
    exact located_mono hle hr hlocated hlocated'

/-- Five blocks, three of one time. -/
theorem findBlockByTimestamp_exact_sample :
    ∃ r ≤ 4, IsFirstAt (fun n => if n = 0 then 10 else if n < 4 then 20 else 30) 15 r := by
  have hmono : MonotoneOn (fun n => if n = 0 then 10 else if n < 4 then 20 else 30) (Set.Iic 4) := by
    intro a _ b _ hab
    dsimp only
    split_ifs <;> omega
  obtain ⟨r, hr, -, hfirst, -⟩ := findBlockByTimestamp_exact .inbox hmono 15
  exact ⟨r, hr, (hfirst (by decide)).1⟩

/-! ### The search for a batch -/

/-- The log is the `SequencerBatchDelivered` log of the batch. -/
def Delivers (batch : ℕ) (log : Log) : Prop :=
  log.topics.head? = some sigSequencerBatchDelivered ∧
    log.topics[1]? = some (BitVec.ofNat 256 batch)

/-- The history has a log of the batch in block `n`. -/
def Delivered (history : List Log) (batch n : ℕ) : Prop :=
  ∃ log ∈ history, Delivers batch log ∧ log.blockNumber = some n

/-- The logs of a history come in the order of their blocks. -/
def Ordered (history : List Log) : Prop :=
  history.Pairwise fun x y => x.blockNumber.getD 0 ≤ y.blockNumber.getD 0

section
variable {o : (q : Query) → q.Answer} {history : List Log} {sequencerInbox : Address}
  {batch fromBlock toBlock start n : ℕ}

/-- The filter of a page. -/
def pageFilter (sequencerInbox : Address) (batch fromBlock toBlock : ℕ) : Filter where
  address := sequencerInbox
  eventSignature := [sigSequencerBatchDelivered]
  topic1 := some (BitVec.ofNat 256 batch)
  fromBlock
  toBlock

lemma selects_pageFilter {log : Log} :
    (pageFilter sequencerInbox batch fromBlock toBlock).Selects log ↔
      Delivers batch log ∧ log.Within fromBlock toBlock := by
  have hsig : (∃ sig ∈ [sigSequencerBatchDelivered], log.topics.head? = some sig) ↔
      log.topics.head? = some sigSequencerBatchDelivered := by simp
  have htopic : (some (BitVec.ofNat 256 batch) = none ∨
      log.topics[1]? = some (BitVec.ofNat 256 batch)) ↔
        log.topics[1]? = some (BitVec.ofNat 256 batch) := or_iff_right (Option.some_ne_none _)
  rw [Filter.Selects, pageFilter, hsig, htopic, and_assoc.symm, Delivers]

/-- What a page without a log tells. -/
lemma page_nil (h : history.filter (fun log =>
      (pageFilter sequencerInbox batch fromBlock toBlock).Selects log) = [])
    (hn : Delivered history batch n) (hfrom : fromBlock ≤ n) : toBlock < n := by
  obtain ⟨log, hlog, hbatch, hblock⟩ := hn
  by_contra hle
  have hnot := List.filter_eq_nil_iff.mp h log hlog
  exact hnot (decide_eq_true (selects_pageFilter.mpr ⟨hbatch, n, hblock, hfrom, by omega⟩))

/-- The first log of a page is in the first block of the page that has one. -/
lemma page_cons {log : Log} {logs : List Log} (hsorted : Ordered history)
    (h : history.filter (fun log =>
      (pageFilter sequencerInbox batch fromBlock toBlock).Selects log) = log :: logs) :
    ∃ n, log.blockNumber = some n ∧ fromBlock ≤ n ∧ n ≤ toBlock ∧ Delivered history batch n ∧
      ∀ m, Delivered history batch m → fromBlock ≤ m → n ≤ m := by
  have hmem : log ∈ history.filter (fun log =>
      (pageFilter sequencerInbox batch fromBlock toBlock).Selects log) := by
    rw [h]
    exact List.mem_cons_self
  obtain ⟨hlog, hselects⟩ := List.mem_filter.mp hmem
  obtain ⟨hbatch, n, hn, hfrom, hto⟩ := selects_pageFilter.mp (of_decide_eq_true hselects)
  refine ⟨n, hn, hfrom, hto, ⟨log, hlog, hbatch, hn⟩, ?_⟩
  rintro m ⟨log', hlog', hbatch', hm⟩ hfrom'
  by_cases hto' : m ≤ toBlock
  · have hmem' : log' ∈ log :: logs := by
      rw [← h]
      exact List.mem_filter.mpr ⟨hlog', decide_eq_true (selects_pageFilter.mpr
        ⟨hbatch', m, hm, hfrom', hto'⟩)⟩
    rcases List.mem_cons.mp hmem' with rfl | hmem'
    · rw [hn] at hm
      exact (Option.some.inj hm).le
    · have hpair : (log :: logs).Pairwise _ := h ▸ hsorted.filter _
      have hle := (List.pairwise_cons.mp hpair).1 log' hmem'
      rwa [hn, hm] at hle
  · omega

lemma le_of_onPage {pages : ℕ} (h : OnPage latest pages fromBlock n) : fromBlock ≤ n := by
  obtain ⟨k, -, -, hle, -⟩ := h
  omega

/-- The pages of the search have the blocks from `start` on but for the head, where a page would begin
with it, and what is beyond the last page. -/
lemma onPage_iff : OnPage latest maxSearchIterations start n ↔
    (start ≤ n ∧ n ≤ latest) ∧ n < start + 20010 ∧ ¬(n = latest ∧ 2001 ∣ latest - start) := by
  unfold OnPage searchRangeBlocks maxSearchIterations
  constructor
  · rintro ⟨k, hk, hlt, hle, hn⟩
    refine ⟨⟨by omega, by omega⟩, by omega, ?_⟩
    rintro ⟨rfl, m, hm⟩
    omega
  · rintro ⟨⟨hle, hn⟩, hlt, hhead⟩
    refine ⟨(n - start) / 2001, by omega, ?_, by omega, by omega⟩
    by_contra hge
    refine hhead ⟨by omega, (n - start) / 2001, by omega⟩

/-- **The search, page by page.** It ends with the first block on its pages that has a log of the
batch. -/
lemma eval_searchBatch (hsorted : Ordered history)
    (hlogs : ∀ f, f.address = sequencerInbox →
      o (.logs .ethereum f) = .ok (history.filter fun log => f.Selects log)) (pages : ℕ) :
    ∃ res, (searchBatch sequencerInbox batch latest pages fromBlock).run.eval o s = (.ok (.ok res), s) ∧
      ∀ n, res = some n ↔ IsLeast {n | Delivered history batch n ∧ OnPage latest pages fromBlock n} n := by
  induction pages generalizing fromBlock with
  | zero =>
    refine ⟨none, rfl, fun n => ⟨(fun h => by cases h), ?_⟩⟩
    rintro ⟨⟨-, k, hk, -⟩, -⟩
    exact absurd hk (Nat.not_lt_zero k)
  | succ pages ih =>
    rw [searchBatch]
    by_cases hlt : fromBlock < latest
    · rw [if_pos hlt]
      let toBlock := min (fromBlock + searchRangeBlocks) latest
      have hask : (rpc (.logs .ethereum (pageFilter sequencerInbox batch fromBlock toBlock))).run.eval o
          s = (.ok (.ok (history.filter fun log =>
            (pageFilter sequencerInbox batch fromBlock toBlock).Selects log)), s) :=
        congrArg (fun a => (Except.ok a, s)) (hlogs _ rfl)
      rcases hfilter : history.filter (fun log =>
        (pageFilter sequencerInbox batch fromBlock toBlock).Selects log) with _ | ⟨log, logs⟩
      · rw [hfilter] at hask
        obtain ⟨res, heval, hres⟩ := @ih (toBlock + 1)
        refine ⟨res, (Prog.eval_run_bind_ok hask).trans heval, fun n => (hres n).trans ?_⟩
        have hset : {n | Delivered history batch n ∧ OnPage latest pages (toBlock + 1) n} =
            {n | Delivered history batch n ∧ OnPage latest (pages + 1) fromBlock n} := by
          ext n
          refine and_congr_right fun hn => ?_
          rw [Finality.onPage_cons hlt]
          refine ⟨.inr, fun h => h.resolve_left fun hin => ?_⟩
          exact absurd (page_nil hfilter hn hin.1) (by omega)
        rw [hset]
      · rw [hfilter] at hask
        obtain ⟨n, hn, hfrom, hto, hdelivered, hmin⟩ := page_cons hsorted hfilter
        have hleast : IsLeast {n | Delivered history batch n ∧
            OnPage latest (pages + 1) fromBlock n} n := by
          refine ⟨⟨hdelivered, (Finality.onPage_cons hlt).mpr (.inl ⟨hfrom, hto⟩)⟩, ?_⟩
          exact fun m hm => hmin m hm.1 (le_of_onPage hm.2)
        refine ⟨some n, (Prog.eval_run_bind_ok hask).trans ?_, fun m => ?_⟩
        · show (Except.ok (Except.ok log.blockNumber), s) = _
          rw [hn]
        · rw [Option.some.injEq]
          exact ⟨fun h => h ▸ hleast, fun h => hleast.unique h⟩
    · rw [if_neg hlt]
      refine ⟨none, rfl, fun n => ⟨(fun h => by cases h), ?_⟩⟩
      rintro ⟨⟨-, k, -, hk, -⟩, -⟩
      omega

/-- Block `n` of the range has a log of the batch. -/
def InReach (history : List Log) (batch start latest : ℕ) : Set ℕ :=
  {n | Delivered history batch n ∧ start ≤ n ∧ n ≤ latest}

/-- Where the first block of the range is on a page, the pages are as good as the range. -/
lemma isLeast_inReach {pages : ℕ}
    (hpages : ∀ n, OnPage latest pages start n → start ≤ n ∧ n ≤ latest)
    (h : ∀ n, IsLeast (InReach history batch start latest) n → OnPage latest pages start n) :
    IsLeast {n | Delivered history batch n ∧ OnPage latest pages start n} n ↔
      IsLeast (InReach history batch start latest) n := by
  constructor
  · rintro ⟨⟨hn, hpage⟩, hmin⟩
    -- The range has a least element, and it is on a page.
    have hex : ∃ n, n ∈ InReach history batch start latest := ⟨n, hn, hpages n hpage⟩
    classical
    have hleast : IsLeast (InReach history batch start latest) (Nat.find hex) :=
      ⟨Nat.find_spec hex, fun m hm => Nat.find_min' hex hm⟩
    have hle : n ≤ Nat.find hex := hmin ⟨hleast.1.1, h _ hleast⟩
    exact ⟨⟨hn, hpages n hpage⟩, fun m hm => hle.trans (hleast.2 hm)⟩
  · intro hn
    exact ⟨⟨hn.1.1, h n hn⟩, fun m hm => hn.2 ⟨hm.1, hpages m hm.2⟩⟩

/-- **When the batch search is exact.** On any history, with `start` the block that is found for the end
of the epoch, the search ends with the first block from `start` to `latest` that has a log of the batch,
and with none when there is no such block, if and only if that block is not beyond the tenth page and
is not the head where a page would begin with it. -/
theorem batch_search_exact_iff {epochEndTs : ℕ} {s s' : World} (hsorted : Ordered history)
    (hlatest : o (.blockNumber .ethereum) = .ok latest)
    (hlogs : ∀ f, f.address = sequencerInbox →
      o (.logs .ethereum f) = .ok (history.filter fun log => f.Selects log))
    (hstart : (findBlockByTimestamp .ethereum epochEndTs).eval o s = (.ok start, s')) :
    (∃ res t, (getL1BlockForBatch sequencerInbox batch epochEndTs).run.eval o s = (.ok (.ok res), t) ∧
      ∀ n, res = some n ↔ IsLeast (InReach history batch start latest) n) ↔
    ∀ n, IsLeast (InReach history batch start latest) n →
      n < start + 20010 ∧ ¬(n = latest ∧ 2001 ∣ latest - start) := by
  obtain ⟨res, heval, hres⟩ := @eval_searchBatch latest s' o history sequencerInbox batch start hsorted
    hlogs maxSearchIterations
  have hask : (rpc (.blockNumber .ethereum)).run.eval o s = (.ok (.ok latest), s) :=
    congrArg (fun a => (Except.ok a, s)) hlatest
  have hrun : (getL1BlockForBatch sequencerInbox batch epochEndTs).run.eval o s =
      (.ok (.ok res), s') := by
    rw [getL1BlockForBatch, Prog.eval_run_bind_ok hask, Prog.eval_run_lift_bind_ok hstart, heval]
  have hpages : ∀ n, OnPage latest maxSearchIterations start n → start ≤ n ∧ n ≤ latest :=
    fun n hn => (onPage_iff.mp hn).1
  constructor
  · rintro ⟨res', t, heval', hres'⟩ n hn
    rw [hrun] at heval'
    obtain rfl : res = res' := Except.ok.inj (Except.ok.inj (congrArg Prod.fst heval'))
    exact (onPage_iff.mp ((hres n).mp ((hres' n).mpr hn)).1.2).2
  · intro h
    refine ⟨res, s', hrun, fun n => (hres n).trans (isLeast_inReach hpages fun m hm => ?_)⟩
    exact onPage_iff.mpr ⟨hm.1.2, h m hm⟩

end

/-! ### A batch in the head block -/

/-- An L1 chain with the head 7 on which batch 3 has been delivered in block `n`. -/
def deliveryNode (n : ℕ) : (q : Query) → q.Answer
  | .blockNumber _ => .ok 7
  | .blockByNumber _ .latest => .ok (some ⟨7, 70⟩)
  | .blockByNumber _ (.number n) => .ok (some ⟨n, 10 * n⟩)
  | .logs _ f => .ok ([(⟨[sigSequencerBatchDelivered, 3], [], some n, none, none⟩ : Log)].filter
      fun log => f.Selects log)
  | _ => .error "connection refused"

/-- The epoch has ended at the time of the head, and its batch is there: no page is read. -/
theorem head_batch_missed : ∃ (o : (q : Query) → q.Answer) (history : List Log) (s : World),
    Ordered history ∧ o (.blockNumber .ethereum) = .ok 7 ∧
    (∀ f, f.address = 9 → o (.logs .ethereum f) = .ok (history.filter fun log => f.Selects log)) ∧
    (findBlockByTimestamp .ethereum 70).eval o s = (.ok 7, s) ∧
    (getL1BlockForBatch 9 3 70).run.eval o s = (.ok (.ok none), s) ∧
    IsLeast (InReach history 3 7 7) 7 := by
  refine ⟨deliveryNode 7, [⟨[sigSequencerBatchDelivered, 3], [], some 7, none, none⟩], {},
    List.pairwise_singleton _ _, rfl, fun _ _ => rfl, rfl, rfl, ?_⟩
  have hlog : Delivered [⟨[sigSequencerBatchDelivered, 3], [], some 7, none, none⟩] 3 7 :=
    ⟨_, List.mem_singleton_self _, ⟨rfl, rfl⟩, rfl⟩
  exact ⟨⟨hlog, le_rfl, le_rfl⟩, fun m hm => hm.2.1⟩

/-- The same batch a block earlier is found. -/
theorem batch_search_exact_iff_sample : ∃ res t,
    (getL1BlockForBatch 9 3 55).run.eval (deliveryNode 6) {} = (.ok (.ok res), t) ∧
    ∀ n, res = some n ↔
      IsLeast (InReach [⟨[sigSequencerBatchDelivered, 3], [], some 6, none, none⟩] 3 6 7) n := by
  have hstart : (findBlockByTimestamp .ethereum 55).eval (deliveryNode 6) {} = (.ok 6, {}) := by
    decide +kernel
  have hlogs : ∀ f : Filter, f.address = 9 → deliveryNode 6 (.logs .ethereum f) =
      .ok ([(⟨[sigSequencerBatchDelivered, 3], [], some 6, none, none⟩ : Log)].filter
        fun log => f.Selects log) := fun _ _ => rfl
  have hlatest : deliveryNode 6 (.blockNumber .ethereum) = .ok 7 := rfl
  refine (batch_search_exact_iff (List.pairwise_singleton _ _) hlatest hlogs hstart).mpr ?_
  rintro n ⟨⟨⟨log, hlog, -, hn⟩, -⟩, -⟩
  obtain rfl := List.mem_singleton.mp hlog
  obtain rfl : 6 = n := Option.some.inj hn
  exact ⟨by decide, by decide⟩

end Searches

end VeaValidator
