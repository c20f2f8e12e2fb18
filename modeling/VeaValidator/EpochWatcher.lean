import VeaValidator.Changes
import VeaValidator.Coop.Asks
import VeaValidator.Coop.Comes
import VeaValidator.Interleaving

/-!
The watcher of the epochs.

In every turn it reads the time of the head of the inbox. In the last minute of an epoch it saves
the snapshot, once; twenty minutes after the end of an epoch it claims it, until the claim has been
made. Three variables of the loop tell it what it has done. The lines it leaves in the log say when
it has called what.
-/

namespace VeaValidator

open Coop

namespace EpochWatcher

def beforeEpochBuffer : ℕ := 60
def afterEpochBuffer : ℕ := 20 * 60

def getCurrentTimestamp : Fallible ℕ := do
  match ← rpc (.blockByNumber .inbox .latest) with
  | some block => pure block.timestamp
  | none => ExceptT.lift (.panic .unwrapNone)

/-- The variables of the loop. -/
structure Memory where
  lastBeforeEpoch : Option ℕ := none
  lastAfterEpoch : Option ℕ := none
  skipClaimUntil : ℕ := 0

def saveBeforeEpoch (epochPeriod now : ℕ) (m : Memory) : M Memory := do
  let currentEpoch := now / epochPeriod
  let nextEpochStart := u64 (u64 (currentEpoch + 1) * epochPeriod)
  let timeUntilNextEpoch := nextEpochStart - now
  if (← TaskStore.isOnSync) ∧ timeUntilNextEpoch ≤ beforeEpochBuffer ∧
      m.lastBeforeEpoch ≠ some currentEpoch then do
    info (.watch (.saving currentEpoch now))
    match ← Tasks.saveSnapshot.run with
    | .ok _ => pure { m with lastBeforeEpoch := some currentEpoch }
    | .error e => .panic (.failedToSave currentEpoch e)
  else
    pure m

/-- What becomes of the variables after a claim. -/
def afterClaim (prevEpoch now : ℕ) (m : Memory) : Except String Unit → M Memory
  | .ok _ => pure { m with lastAfterEpoch := some prevEpoch }
  | .error e =>
    if e = "EpochNotFinalized" then pure { m with skipClaimUntil := u64 (now + 300) }
    else if contains e "timed out" ∨ contains e "connection" then pure m
    else .panic (.failedToClaim prevEpoch e)

def claimAfterEpoch (route : Route) (makeClaims : Bool) (epochPeriod now : ℕ) (m : Memory) :
    M Memory := do
  let currentEpoch := now / epochPeriod
  if makeClaims ∧ (← TaskStore.isOnSync) ∧ now ≥ m.skipClaimUntil then
    let timeSinceEpochStart := now - u64 (currentEpoch * epochPeriod)
    if timeSinceEpochStart ≥ afterEpochBuffer ∧ currentEpoch > 0 then
      let prevEpoch := currentEpoch - 1
      if m.lastAfterEpoch ≠ some prevEpoch then do
        info (.watch (.claiming prevEpoch now))
        let result ← (Tasks.claim route prevEpoch now).run
        info (.watch (.claimed prevEpoch now result))
        afterClaim prevEpoch now m result
      else
        pure m
    else
      pure m
  else
    pure m

/-- One turn of the loop. -/
def watchTurn (route : Route) (makeClaims : Bool) (epochPeriod : ℕ) (m : Memory) : M Memory := do
  match ← getCurrentTimestamp.run with
  | .error _ => do
    sleep 10
    pure m
  | .ok now =>
    if epochPeriod = 0 then
      .panic .divideByZero
    else do
      info (.watch (.observed now))
      let m ← saveBeforeEpoch epochPeriod now m
      let m ← claimAfterEpoch route makeClaims epochPeriod now m
      sleep 10
      pure m

/-- The first `n` turns of the loop that never ends. -/
def watchEpochs (route : Route) (makeClaims : Bool) (epochPeriod : ℕ) : ℕ → Memory → M Unit
  | 0, _ => pure ()
  | n + 1, m => do
    let m ← watchTurn route makeClaims epochPeriod m
    watchEpochs route makeClaims epochPeriod n m

end EpochWatcher

/-! ### The lines of the watcher -/

def Obs.watch? : Obs → Option Watch
  | .watch line => some line
  | _ => none

/-- What the watcher has done, newest first. -/
def World.watched (w : World) : List Watch := w.log.filterMap Obs.watch?

lemma World.watched_note (w : World) (line : Watch) :
    (w.note (.watch line)).watched = line :: w.watched := rfl

namespace Watch

def observed? : Watch → Option ℕ
  | .observed now => some now
  | _ => none

/-- The line is about a call. -/
def Call : Watch → Prop
  | .saving _ _ | .claiming _ _ => True
  | _ => False

lemma observed?_eq {line : Watch} {now : ℕ} (h : line.observed? = some now) :
    line = .observed now := by
  cases line <;> cases h
  rfl

end Watch

namespace EpochWatcher

/-- The time of the turn that is running. -/
def lastObserved (l : List Watch) : Option ℕ := (l.filterMap Watch.observed?).head?

/-- The times do not go back, and they are so early that the sums of the loop fit a `u64`. -/
structure Steady (epochPeriod : ℕ) (l : List Watch) : Prop where
  sorted : (l.filterMap Watch.observed?).Pairwise (· ≥ ·)
  fits : ∀ now, .observed now ∈ l →
    (now / epochPeriod + 1) * epochPeriod < 2 ^ 64 ∧ now + 300 < 2 ^ 64

/-- A call is made at the time of its turn: a snapshot is saved in the last minute of its epoch, and
an epoch is claimed when it has been over for twenty minutes, by a watcher that makes claims. -/
def Timely (makeClaims : Bool) (epochPeriod : ℕ) (line : Watch) (earlier : List Watch) : Prop :=
  match line with
  | .saving e now => lastObserved earlier = some now ∧ e = now / epochPeriod ∧
      (e + 1) * epochPeriod ≤ now + 60
  | .claiming e now => lastObserved earlier = some now ∧ makeClaims = true ∧
      e + 1 = now / epochPeriod ∧ (e + 1) * epochPeriod + 1200 ≤ now
  | _ => True

/-- No epoch is saved twice, none is claimed again when its claim has returned `Ok`, and after an
`EpochNotFinalized` there is no claim for five minutes. -/
def Apart : Watch → Watch → Prop
  | .saving e _, .saving e' _ => e ≠ e'
  | .claiming e _, .claimed e' _ (.ok _) => e ≠ e'
  | .claiming _ now, .claimed _ now' (.error err) => err = "EpochNotFinalized" → now' + 300 ≤ now
  | _, _ => True

/-- What the watcher may have done. -/
structure Lawful (makeClaims : Bool) (epochPeriod : ℕ) (l : List Watch) : Prop where
  timely : ∀ line earlier, (line :: earlier) <:+ l → Timely makeClaims epochPeriod line earlier
  apart : l.Pairwise Apart

/-- The variables of the loop say what has been done. -/
structure Inv (makeClaims : Bool) (epochPeriod : ℕ) (m : Memory) (l : List Watch) : Prop where
  lawful : Lawful makeClaims epochPeriod l
  saved : ∀ e now, .saving e now ∈ l → ∃ b, m.lastBeforeEpoch = some b ∧ e ≤ b
  before : ∀ b, m.lastBeforeEpoch = some b → ∃ now, .observed now ∈ l ∧ b = now / epochPeriod
  settled : ∀ e now, .claimed e now (.ok ()) ∈ l → ∃ a, m.lastAfterEpoch = some a ∧ e ≤ a
  after : ∀ a, m.lastAfterEpoch = some a → ∃ now, .observed now ∈ l ∧ a + 1 = now / epochPeriod
  skip : ∀ e now, .claimed e now (.error "EpochNotFinalized") ∈ l → now + 300 ≤ m.skipClaimUntil

variable {route : Route} {makeClaims : Bool} {epochPeriod now : ℕ} {m : Memory} {l : List Watch}
  {line : Watch} {s t : World}

lemma Steady.tail (h : Steady epochPeriod (line :: l)) : Steady epochPeriod l := by
  refine ⟨?_, fun now hm => h.fits now (List.mem_cons_of_mem _ hm)⟩
  have hsorted := h.sorted
  rw [List.filterMap_cons] at hsorted
  cases hline : line.observed? with
  | none =>
    rw [hline] at hsorted
    exact hsorted
  | some now =>
    rw [hline] at hsorted
    exact hsorted.of_cons

lemma observed_of_last (h : lastObserved l = some now) : .observed now ∈ l := by
  obtain ⟨line, hm, hline⟩ := List.mem_filterMap.mp (List.mem_of_mem_head? h)
  rwa [Watch.observed?_eq hline] at hm

/-- No time that has been read is later than the last one. -/
lemma Steady.le_last (h : Steady epochPeriod l) (hlast : lastObserved l = some now) {now' : ℕ}
    (hm : .observed now' ∈ l) : now' ≤ now := by
  have hsorted := h.sorted
  have hmem : now' ∈ l.filterMap Watch.observed? := List.mem_filterMap.mpr ⟨_, hm, rfl⟩
  unfold lastObserved at hlast
  rcases hl : l.filterMap Watch.observed? with _ | ⟨x, l'⟩
  · rw [hl] at hmem
    cases hmem
  · rw [hl] at hlast hsorted hmem
    obtain rfl : x = now := Option.some.inj hlast
    rcases List.mem_cons.mp hmem with rfl | hmem
    · exact le_rfl
    · exact List.rel_of_pairwise_cons hsorted hmem

lemma Lawful.cons (h : Lawful makeClaims epochPeriod l)
    (htimely : Timely makeClaims epochPeriod line l) (hapart : ∀ older ∈ l, Apart line older) :
    Lawful makeClaims epochPeriod (line :: l) := by
  refine ⟨fun line' earlier hsuffix => ?_, List.pairwise_cons.mpr ⟨hapart, h.apart⟩⟩
  rcases List.suffix_cons_iff.mp hsuffix with heq | hsuffix
  · obtain ⟨rfl, rfl⟩ := List.cons.inj heq
    exact htimely
  · exact h.timely line' earlier hsuffix

/-! ### What a turn adds to the lines -/

lemma inv_nil : Inv makeClaims epochPeriod {} [] where
  lawful := ⟨fun _ _ h => by simp at h, List.Pairwise.nil⟩
  saved := nofun
  before := nofun
  settled := nofun
  after := nofun
  skip := nofun

lemma Inv.observed (h : Inv makeClaims epochPeriod m l) :
    Inv makeClaims epochPeriod m (.observed now :: l) where
  lawful := h.lawful.cons trivial fun _ _ => trivial
  saved e t hm := h.saved e t (by simpa using hm)
  before b hb := by
    obtain ⟨t, ht, hbt⟩ := h.before b hb
    exact ⟨t, List.mem_cons_of_mem _ ht, hbt⟩
  settled e t hm := h.settled e t (by simpa using hm)
  after a ha := by
    obtain ⟨t, ht, hat⟩ := h.after a ha
    exact ⟨t, List.mem_cons_of_mem _ ht, hat⟩
  skip e t hm := h.skip e t (by simpa using hm)

/-- The epochs that have been saved are over, but for the last one. -/
lemma Inv.saving (h : Inv makeClaims epochPeriod m l) (hs : Steady epochPeriod l)
    (hlast : lastObserved l = some now)
    (hwindow : (now / epochPeriod + 1) * epochPeriod ≤ now + 60)
    (hnew : m.lastBeforeEpoch ≠ some (now / epochPeriod)) :
    Inv makeClaims epochPeriod { m with lastBeforeEpoch := some (now / epochPeriod) }
      (.saving (now / epochPeriod) now :: l) := by
  have hle : ∀ b, m.lastBeforeEpoch = some b → b ≤ now / epochPeriod := by
    intro b hb
    obtain ⟨t, ht, rfl⟩ := h.before b hb
    exact Nat.div_le_div_right (hs.le_last hlast ht)
  refine ⟨h.lawful.cons ⟨hlast, rfl, hwindow⟩ fun older hm => ?_, fun e t hm => ?_, fun b hb => ?_,
    fun e t hm => h.settled e t (by simpa using hm), fun a ha => ?_,
    fun e t hm => h.skip e t (by simpa using hm)⟩
  · cases older with
    | saving e t =>
      obtain ⟨b, hb, heb⟩ := h.saved e t hm
      have hne : b ≠ now / epochPeriod := fun hbn => hnew (hbn ▸ hb)
      have hlt := hle b hb
      show now / epochPeriod ≠ e
      omega
    | _ => trivial
  · refine ⟨_, rfl, ?_⟩
    rcases List.mem_cons.mp hm with hm | hm
    · cases hm
      exact le_rfl
    · obtain ⟨b, hb, heb⟩ := h.saved e t hm
      exact heb.trans (hle b hb)
  · cases hb
    exact ⟨now, List.mem_cons_of_mem _ (observed_of_last hlast), rfl⟩
  · obtain ⟨t, ht, hat⟩ := h.after a ha
    exact ⟨t, List.mem_cons_of_mem _ ht, hat⟩

/-- The epoch to be claimed is not before one whose claim has been made. -/
lemma Inv.le_prev (h : Inv makeClaims epochPeriod m l) (hs : Steady epochPeriod l)
    (hlast : lastObserved l = some now) {a : ℕ} (ha : m.lastAfterEpoch = some a) :
    a + 1 ≤ now / epochPeriod := by
  obtain ⟨t, ht, hat⟩ := h.after a ha
  rw [hat]
  exact Nat.div_le_div_right (hs.le_last hlast ht)

lemma Inv.claiming (h : Inv makeClaims epochPeriod m l) (hs : Steady epochPeriod l)
    (hlast : lastObserved l = some now) (hclaims : makeClaims = true)
    (hskip : m.skipClaimUntil ≤ now) (hpos : 0 < now / epochPeriod)
    (hover : now / epochPeriod * epochPeriod + 1200 ≤ now)
    (hnew : m.lastAfterEpoch ≠ some (now / epochPeriod - 1)) :
    Inv makeClaims epochPeriod m (.claiming (now / epochPeriod - 1) now :: l) := by
  have hsucc : now / epochPeriod - 1 + 1 = now / epochPeriod := by omega
  refine ⟨h.lawful.cons ⟨hlast, hclaims, hsucc, by rwa [hsucc]⟩ fun older hm => ?_,
    fun e t hm => h.saved e t (by simpa using hm), fun b hb => ?_,
    fun e t hm => h.settled e t (by simpa using hm), fun a ha => ?_,
    fun e t hm => h.skip e t (by simpa using hm)⟩
  · cases older with
    | claimed e t result =>
      rcases result with err | ⟨⟩
      · rintro rfl
        exact (h.skip e t hm).trans hskip
      · obtain ⟨a, ha, hea⟩ := h.settled e t hm
        have hle := h.le_prev hs hlast ha
        have hne : a ≠ now / epochPeriod - 1 := fun han => hnew (han ▸ ha)
        show now / epochPeriod - 1 ≠ e
        omega
    | _ => trivial
  · obtain ⟨t, ht, hbt⟩ := h.before b hb
    exact ⟨t, List.mem_cons_of_mem _ ht, hbt⟩
  · obtain ⟨t, ht, hat⟩ := h.after a ha
    exact ⟨t, List.mem_cons_of_mem _ ht, hat⟩

/-- A claim that has not returned `Ok` changes the back-off at most. -/
lemma Inv.failed (h : Inv makeClaims epochPeriod m l) {e : ℕ} {err : String} {n : ℕ}
    (hskip : m.skipClaimUntil ≤ n) (hn : err = "EpochNotFinalized" → now + 300 ≤ n) :
    Inv makeClaims epochPeriod { m with skipClaimUntil := n }
      (.claimed e now (.error err) :: l) := by
  refine ⟨h.lawful.cons trivial fun _ _ => trivial, fun e t hm => h.saved e t (by simpa using hm),
    fun b hb => ?_, fun e t hm => h.settled e t (by simpa using hm), fun a ha => ?_,
    fun e' t hm => ?_⟩
  · obtain ⟨t, ht, hbt⟩ := h.before b hb
    exact ⟨t, List.mem_cons_of_mem _ ht, hbt⟩
  · obtain ⟨t, ht, hat⟩ := h.after a ha
    exact ⟨t, List.mem_cons_of_mem _ ht, hat⟩
  · rcases List.mem_cons.mp hm with hm | hm
    · cases hm
      exact hn rfl
    · exact (h.skip e' t hm).trans hskip

lemma Inv.succeeded (h : Inv makeClaims epochPeriod m l) (hs : Steady epochPeriod l)
    (hlast : lastObserved l = some now) (hpos : 0 < now / epochPeriod) :
    Inv makeClaims epochPeriod { m with lastAfterEpoch := some (now / epochPeriod - 1) }
      (.claimed (now / epochPeriod - 1) now (.ok ()) :: l) := by
  refine ⟨h.lawful.cons trivial fun _ _ => trivial, fun e t hm => h.saved e t (by simpa using hm),
    fun b hb => ?_, fun e t hm => ⟨_, rfl, ?_⟩, fun a ha => ?_,
    fun e t hm => h.skip e t (by simpa using hm)⟩
  · obtain ⟨t, ht, hbt⟩ := h.before b hb
    exact ⟨t, List.mem_cons_of_mem _ ht, hbt⟩
  · rcases List.mem_cons.mp hm with hm | hm
    · cases hm
      exact le_rfl
    · obtain ⟨a, ha, hea⟩ := h.settled e t hm
      have hle := h.le_prev hs hlast ha
      omega
  · cases ha
    exact ⟨now, List.mem_cons_of_mem _ (observed_of_last hlast), by omega⟩

/-! ### The protocol -/

/-- The others leave no such lines. -/
def Elsewhere (s t : World) : Prop := t.watched = s.watched

/-- No handler and no task does. -/
lemma elsewhere_of_change (h : Change s t) : Elsewhere s t := by
  unfold Elsewhere World.watched
  rcases h.log with hlog | ⟨o, ho, hlog⟩
  · rw [hlog]
  · rw [hlog, List.filterMap_cons]
    cases o <;> first | rfl | exact ho.elim

/-- A write leaves lawful lines, as long as the times are steady, and announces a call only on
sync. -/
def Guarded (makeClaims : Bool) (epochPeriod : ℕ) (s t : World) : Prop :=
  (Steady epochPeriod t.watched → Lawful makeClaims epochPeriod t.watched) ∧
    ∀ line : Watch, line.Call → t.watched = line :: s.watched → s.schedule.onSync = true

@[simps]
def protocol (makeClaims : Bool) (epochPeriod : ℕ) : Protocol Unit World Panic Query.Answer where
  inv _ := True
  durable _ := True
  rely _ := Elsewhere
  guar _ := Guarded makeClaims epochPeriod
  answer _ _ _ _ := True
  issue _ _ _ := True
  fault _ _ _ := True

/-- The lines are as the variables say, in a turn at `now`. -/
def Knows (makeClaims : Bool) (epochPeriod now : ℕ) (m : Memory) (w : World) : Prop :=
  lastObserved w.watched = some now ∧
    (Steady epochPeriod w.watched → Inv makeClaims epochPeriod m w.watched)

lemma patient (l : List Watch) :
    Patient (protocol makeClaims epochPeriod) () fun w => w.watched = l where
  rely _ _ hs ht _ := ht.trans hs
  issue _ _ _ _ _ := trivial
  fault _ _ _ _ _ := trivial

/-- A line whose addition the variables allow. -/
lemma wp_line {R : World → Prop} {m' : Memory}
    (hinv : Steady epochPeriod (line :: s.watched) →
      Inv makeClaims epochPeriod m' (line :: s.watched))
    (hsync : line.Call → s.schedule.onSync = true) (hR : R (s.note (.watch line))) :
    (info (.watch line)).wp (protocol makeClaims epochPeriod) () (fun _ => R) s := by
  refine ⟨⟨fun hs => (hinv hs).lawful, fun line' hcall hline => ?_⟩, trivial, hR⟩
  obtain ⟨rfl, -⟩ := List.cons.inj hline
  exact hsync hcall

lemma u64_of_lt {n : ℕ} (h : n < 2 ^ 64) : u64 n = n := Nat.mod_eq_of_lt h

lemma wp_saveBeforeEpoch (hpos : 0 < epochPeriod) (h : Knows makeClaims epochPeriod now m s) :
    (saveBeforeEpoch epochPeriod now m).wp (protocol makeClaims epochPeriod) ()
      (fun m' t => Knows makeClaims epochPeriod now m' t) s := by
  obtain ⟨hlast, hinv⟩ := h
  unfold saveBeforeEpoch
  rw [Prog.wp_bind, wp_isOnSync, Prog.wp_ite]
  refine ⟨fun ⟨hsync, htime, hnew⟩ => ?_, fun _ => ⟨hlast, hinv⟩⟩
  have hsaving : Steady epochPeriod (.saving (now / epochPeriod) now :: s.watched) →
      Inv makeClaims epochPeriod { m with lastBeforeEpoch := some (now / epochPeriod) }
        (.saving (now / epochPeriod) now :: s.watched) := by
    intro hs
    have hwindow : (now / epochPeriod + 1) * epochPeriod ≤ now + 60 := by
      have hfits := (hs.tail.fits now (observed_of_last hlast)).1
      have hsucc : now / epochPeriod + 1 < 2 ^ 64 :=
        (Nat.le_mul_of_pos_right _ hpos).trans_lt hfits
      rw [u64_of_lt hsucc, u64_of_lt hfits, beforeEpochBuffer] at htime
      omega
    exact (hinv hs.tail).saving hs.tail hlast hwindow hnew
  rw [Prog.wp_bind]
  refine wp_line hsaving (fun _ => hsync) ?_
  rw [Prog.wp_bind]
  refine Prog.wp_mono ?_ (Tasks.keeps_saveSnapshot (patient _) (fun _ _ _ => trivial) _ trivial
    (World.watched_note s _))
  rintro result t ⟨-, ht⟩
  cases result with
  | error e => exact ⟨trivial, trivial⟩
  | ok _ =>
    refine ⟨?_, ?_⟩
    · rw [ht]
      exact hlast
    · rw [ht]
      exact hsaving

lemma wp_afterClaim {result : Except String Unit} (hlast : lastObserved l = some now)
    (hskip : m.skipClaimUntil ≤ now) (hpos : 0 < now / epochPeriod)
    (hinv : Steady epochPeriod l → Inv makeClaims epochPeriod m l)
    (hs : s.watched = .claimed (now / epochPeriod - 1) now result :: l) :
    (afterClaim (now / epochPeriod - 1) now m result).wp (protocol makeClaims epochPeriod) ()
      (fun m' t => Knows makeClaims epochPeriod now m' t) s := by
  have hlast' : lastObserved s.watched = some now := by
    rw [hs]
    exact hlast
  rcases result with err | ⟨⟩
  · rw [afterClaim, Prog.wp_ite]
    refine ⟨fun herr => ⟨hlast', fun hsteady => ?_⟩, fun hne => ?_⟩
    · rw [hs] at hsteady ⊢
      have hfits := (hsteady.tail.fits now (observed_of_last hlast)).2
      rw [u64_of_lt hfits]
      exact (hinv hsteady.tail).failed (by omega) fun _ => le_rfl
    · rw [Prog.wp_ite]
      refine ⟨fun _ => ⟨hlast', fun hsteady => ?_⟩, fun _ => ⟨trivial, trivial⟩⟩
      rw [hs] at hsteady ⊢
      exact (hinv hsteady.tail).failed le_rfl fun herr => absurd herr hne
  · refine ⟨hlast', fun hsteady => ?_⟩
    rw [hs] at hsteady ⊢
    exact (hinv hsteady.tail).succeeded hsteady.tail hlast hpos

/-- The line of a result is lawful after those of a claim. -/
lemma lawful_claimed {e : ℕ} {result : Except String Unit}
    (h : Inv makeClaims epochPeriod m l) :
    Lawful makeClaims epochPeriod (.claimed e now result :: l) :=
  h.lawful.cons trivial fun _ _ => trivial

lemma wp_claimAfterEpoch (h : Knows makeClaims epochPeriod now m s) :
    (claimAfterEpoch route makeClaims epochPeriod now m).wp (protocol makeClaims epochPeriod) ()
      (fun m' t => Knows makeClaims epochPeriod now m' t) s := by
  obtain ⟨hlast, hinv⟩ := h
  unfold claimAfterEpoch
  rw [Prog.wp_bind, wp_isOnSync, Prog.wp_ite]
  refine ⟨fun ⟨hclaims, hsync, hskip⟩ => ?_, fun _ => ⟨hlast, hinv⟩⟩
  rw [Prog.wp_ite]
  refine ⟨fun ⟨hsince, hpos⟩ => ?_, fun _ => ⟨hlast, hinv⟩⟩
  rw [Prog.wp_ite]
  refine ⟨fun hnew => ?_, fun _ => ⟨hlast, hinv⟩⟩
  have hclaiming : Steady epochPeriod (.claiming (now / epochPeriod - 1) now :: s.watched) →
      Inv makeClaims epochPeriod m (.claiming (now / epochPeriod - 1) now :: s.watched) := by
    intro hs
    have hover : now / epochPeriod * epochPeriod + 1200 ≤ now := by
      have hle : now / epochPeriod * epochPeriod ≤ now := Nat.div_mul_le_self _ _
      have hfits := (hs.tail.fits now (observed_of_last hlast)).2
      rw [u64_of_lt (by omega), afterEpochBuffer] at hsince
      omega
    exact (hinv hs.tail).claiming hs.tail hlast hclaims hskip hpos hover hnew
  rw [Prog.wp_bind]
  refine wp_line hclaiming (fun _ => hsync) ?_
  rw [Prog.wp_bind]
  refine Prog.wp_mono ?_ (Tasks.keeps_claim (patient _) (fun _ _ _ _ _ => trivial) _ trivial
    (World.watched_note s _))
  rintro result t ⟨-, ht⟩
  have hlast' : lastObserved (.claiming (now / epochPeriod - 1) now :: s.watched) = some now := hlast
  have hlines : (t.note (.watch (.claimed (now / epochPeriod - 1) now result))).watched =
      .claimed (now / epochPeriod - 1) now result ::
        .claiming (now / epochPeriod - 1) now :: s.watched := by
    rw [World.watched_note, ht]
  rw [Prog.wp_bind, wp_info]
  refine ⟨⟨fun hsteady => ?_, fun line hcall hline => ?_⟩, trivial,
    wp_afterClaim hlast' hskip hpos hclaiming hlines⟩
  · rw [hlines] at hsteady ⊢
    exact lawful_claimed (hclaiming hsteady.tail)
  · rw [World.watched_note] at hline
    obtain ⟨rfl, -⟩ := List.cons.inj hline
    exact hcall.elim

/-- **One turn.** -/
lemma wp_watchTurn (hpos : 0 < epochPeriod)
    (h : Steady epochPeriod s.watched → Inv makeClaims epochPeriod m s.watched) :
    (watchTurn route makeClaims epochPeriod m).wp (protocol makeClaims epochPeriod) ()
      (fun m' t => Steady epochPeriod t.watched → Inv makeClaims epochPeriod m' t.watched) s := by
  have hstay : ∀ (m' : Memory) (u v : World), Elsewhere u v →
      (Steady epochPeriod u.watched → Inv makeClaims epochPeriod m' u.watched) →
      Steady epochPeriod v.watched → Inv makeClaims epochPeriod m' v.watched := by
    intro m' u v huv hu hv
    rw [huv] at hv ⊢
    exact hu hv
  have hsleep : ∀ (m' : Memory) (u : World),
      (Steady epochPeriod u.watched → Inv makeClaims epochPeriod m' u.watched) →
      (do
        sleep 10
        pure m' : M Memory).wp (protocol makeClaims epochPeriod) ()
          (fun m' t => Steady epochPeriod t.watched → Inv makeClaims epochPeriod m' t.watched) u := by
    intro m' u hu
    rw [Prog.wp_bind, wp_sleep]
    exact ⟨trivial, trivial, fun v huv _ _ _ => hstay m' u v huv hu⟩
  rw [watchTurn, Prog.wp_bind, getCurrentTimestamp, Prog.wp_run_bind, wp_run_rpc]
  refine ⟨trivial, trivial, fun t hst _ answer _ => ?_⟩
  have ht := hstay m s t hst h
  rcases answer with e | _ | block
  · exact hsleep m t ht
  · exact ⟨trivial, trivial⟩
  show Prog.wp _ _ (if epochPeriod = 0 then _ else _) _ _
  rw [Prog.wp_ite]
  refine ⟨fun hzero => absurd hzero hpos.ne', fun _ => ?_⟩
  have hobserved : Steady epochPeriod (.observed block.timestamp :: t.watched) →
      Inv makeClaims epochPeriod m (.observed block.timestamp :: t.watched) :=
    fun hs => (ht hs.tail).observed
  rw [Prog.wp_bind]
  refine wp_line hobserved (fun hcall => hcall.elim) ?_
  have hknows : Knows makeClaims epochPeriod block.timestamp m
      (t.note (.watch (.observed block.timestamp))) := ⟨rfl, hobserved⟩
  rw [Prog.wp_bind]
  refine Prog.wp_mono (fun m₁ u hu => ?_) (wp_saveBeforeEpoch hpos hknows)
  rw [Prog.wp_bind]
  exact Prog.wp_mono (fun m₂ v hv => hsleep m₂ v hv.2) (wp_claimAfterEpoch hu)

/-- The loop keeps its variables in step with its lines. -/
lemma wp_watchEpochs (hpos : 0 < epochPeriod) (n : ℕ)
    (h : Steady epochPeriod s.watched → Inv makeClaims epochPeriod m s.watched) :
    (watchEpochs route makeClaims epochPeriod n m).wp (protocol makeClaims epochPeriod) ()
      (fun _ _ => True) s := by
  induction n generalizing m s with
  | zero => trivial
  | succ n ih =>
    rw [watchEpochs, Prog.wp_bind]
    exact Prog.wp_mono (fun m' t ht => ih ht) (wp_watchTurn hpos h)

/-- **The watcher is lawful.** Whatever the others do, whatever the calls return and whatever time the
head has, as long as the times are steady: every write of the watcher leaves lawful lines, and it
announces a call only while the route is on sync. The others leave no such lines: no handler and no
task does (`elsewhere_of_change`). And no call is made without its line (`asks_announced`). -/
theorem watchEpochs_lawful (route : Route) (makeClaims : Bool) {epochPeriod : ℕ}
    (hpos : 0 < epochPeriod) (n : ℕ) {s u v : World} (hs : s.watched = [])
    (h : (watchEpochs route makeClaims epochPeriod n {}).Writes Elsewhere (fun _ _ _ => True) s u v)
    (hsteady : Steady epochPeriod v.watched) :
    Lawful makeClaims epochPeriod v.watched ∧
      ∀ line : Watch, line.Call → v.watched = line :: u.watched → u.schedule.onSync = true := by
  have hw : (watchEpochs route makeClaims epochPeriod n {}).wp (protocol makeClaims epochPeriod) ()
      (fun _ _ => True) s := by
    refine wp_watchEpochs hpos n fun _ => ?_
    rw [hs]
    exact inv_nil
  have hrely : (fun s t => (protocol makeClaims epochPeriod).rely () s t ∧
      (protocol makeClaims epochPeriod).inv t) = Elsewhere := by
    funext s t
    exact propext (and_iff_left trivial)
  have hguar := Prog.wp_writes hw (u := u) (v := v) (by
    rw [hrely]
    exact h)
  exact ⟨hguar.1 hsteady, hguar.2⟩

/-! ### The calls -/

section
variable {rely : World → World → Prop} {q : Query} {u : World} {l : List ((q : Query) × q.Answer)}

/-- The exchanges `l` end with those of a call that has begun right behind its line, and the call
comes to `q`. -/
def Calling (route : Route) (rely : World → World → Prop) (l : List ((q : Query) × q.Answer))
    (q : Query) (u : World) : Prop :=
  ∃ (old recent : _) (w : World) (e now : ℕ), l = old ++ recent ∧
    (Tasks.saveSnapshot.run.Comes rely (w.note (.watch (.saving e now))) recent q u ∨
      (Tasks.claim route e now).run.Comes rely (w.note (.watch (.claiming e now))) recent q u)

lemma Calling.after {old : List ((q : Query) × q.Answer)} (h : Calling route rely l q u) :
    Calling route rely (old ++ l) q u := by
  obtain ⟨old', recent, w, e, now, rfl, h⟩ := h
  exact ⟨old ++ old', recent, w, e, now, (List.append_assoc _ _ _).symm, h⟩

lemma calling_saveBeforeEpoch (h : (saveBeforeEpoch epochPeriod now m).Comes rely s l q u) :
    Calling route rely l q u := by
  rw [saveBeforeEpoch, TaskStore.isOnSync, Prog.comes_gets_bind] at h
  split at h
  · rcases Prog.comes_bind.mp h with h | ⟨⟨⟩, v, l₁, l₂, rfl, ⟨rfl, -, rfl⟩, h⟩
    · exact h.elim
    have hsave : Tasks.saveSnapshot.run.Comes rely
        (s.note (.watch (.saving (now / epochPeriod) now))) l₂ q u := by
      refine Prog.Never.comes_first (C := fun p => p = q) (fun result => ?_) h rfl
      cases result with
      | ok _ => exact .pure
      | error e => exact .panic
    exact ⟨[], l₂, s, _, now, rfl, .inl hsave⟩
  · exact h.elim

lemma calling_claimAfterEpoch
    (h : (claimAfterEpoch route makeClaims epochPeriod now m).Comes rely s l q u) :
    Calling route rely l q u := by
  rw [claimAfterEpoch, TaskStore.isOnSync, Prog.comes_gets_bind] at h
  dsimp only at h
  split at h
  · split at h
    · split at h
      · rcases Prog.comes_bind.mp h with h | ⟨⟨⟩, v, l₁, l₂, rfl, ⟨rfl, -, rfl⟩, h⟩
        · exact h.elim
        have hclaim : (Tasks.claim route (now / epochPeriod - 1) now).run.Comes rely
            (s.note (.watch (.claiming (now / epochPeriod - 1) now))) l₂ q u := by
          refine Prog.Never.comes_first (C := fun p => p = q) (fun result => ?_) h rfl
          refine .bind .modify fun _ => ?_
          cases result with
          | ok _ => exact .pure
          | error e => exact .ite .pure (.ite .pure .panic)
        exact ⟨[], l₂, s, _, now, rfl, .inr hclaim⟩
      · exact h.elim
    · exact h.elim
  · exact h.elim

/-- What the watcher asks is its clock, its pause, or asked by one of the two calls. -/
lemma calling_watchEpochs (hclock : q ≠ .blockByNumber .inbox .latest) (hpause : q ≠ .sleep 10)
    (n : ℕ) (m : Memory) (h : (watchEpochs route makeClaims epochPeriod n m).Comes rely s l q u) :
    Calling route rely l q u := by
  have hnow : Prog.Never (fun p => p = q) getCurrentTimestamp.run := by
    refine .run_bind (.ask fun hq => hclock hq.symm) fun block => ?_
    cases block with
    | some block => exact .pure
    | none => exact .run_lift .panic
  have hwait : ∀ m : Memory, Prog.Never (fun p => p = q) (do sleep 10; pure m : M _) :=
    fun _ => .bind (.bind (.ask fun hq => hpause hq.symm) fun _ => .pure) fun _ => .pure
  induction n generalizing m s l with
  | zero => exact h.elim
  | succ n ih =>
    rcases Prog.comes_bind.mp h with h | ⟨m', v, l₁, l₂, rfl, -, h⟩
    · obtain ⟨answer, v, l₁, l₂, rfl, -, h⟩ := hnow.comes_rest h rfl
      rcases answer with e | now
      · exact absurd rfl (hwait m _ _ _ _ _ h)
      · refine Calling.after ?_
        dsimp only at h
        split at h
        · exact h.elim
        · rcases Prog.comes_bind.mp h with h | ⟨⟨⟩, w, m₁, m₂, rfl, -, h⟩
          · exact h.elim
          refine Calling.after ?_
          rcases Prog.comes_bind.mp h with h | ⟨m', w, l₁, l₂, rfl, -, h⟩
          · exact calling_saveBeforeEpoch h
          · exact (calling_claimAfterEpoch (Prog.Never.comes_first hwait h rfl)).after
    · exact (ih _ h).after

/-- The same rules, with queries only under these lines. -/
abbrev under (lines : List Watch) : Protocol Unit World Panic Query.Answer :=
  (protocol true 0).issuing fun _ _ w => w.watched = lines

lemma patient_under (lines : List Watch) : Patient (under lines) () fun w => w.watched = lines where
  rely _ _ hs ht _ := ht.trans hs
  issue _ _ _ _ hs := hs
  fault _ _ _ _ _ := trivial

/-- A call leaves the lines alone. -/
lemma watched_of_comes {p : M (Except String Unit)} {lines : List Watch}
    (hp : Prog.Keeps (under lines) () (fun w => w.watched = lines) p) (hs : s.watched = lines)
    (h : p.Comes Elsewhere s l q u) : u.watched = lines :=
  Prog.wp_comes (hp s trivial hs) (fun _ _ hst => ⟨hst, trivial⟩) (fun _ _ _ => trivial) h

/-- **Every call is announced.** Besides its clock and its pause the watcher asks only what its two
calls ask. A call begins right behind its line, and that line is the newest one until the call is
over. -/
theorem asks_announced {n : ℕ} (hclock : q ≠ .blockByNumber .inbox .latest) (hpause : q ≠ .sleep 10)
    (h : (watchEpochs route makeClaims epochPeriod n m).Comes Elsewhere s l q u) :
    ∃ (old recent : _) (w : World) (e now : ℕ), l = old ++ recent ∧
      (Tasks.saveSnapshot.run.Comes Elsewhere (w.note (.watch (.saving e now))) recent q u ∧
          u.watched = .saving e now :: w.watched ∨
        (Tasks.claim route e now).run.Comes Elsewhere (w.note (.watch (.claiming e now))) recent q u ∧
          u.watched = .claiming e now :: w.watched) := by
  obtain ⟨old, recent, w, e, now, rfl, hcall⟩ := calling_watchEpochs hclock hpause n m h
  refine ⟨old, recent, w, e, now, rfl, hcall.imp (fun hsave => ⟨hsave, ?_⟩) fun hclaim => ⟨hclaim, ?_⟩⟩
  · exact watched_of_comes (Tasks.keeps_saveSnapshot (patient_under _) fun _ _ hs => hs)
      (World.watched_note w _) hsave
  · exact watched_of_comes (Tasks.keeps_claim (patient_under _) fun _ _ _ _ hs => hs)
      (World.watched_note w _) hclaim

end

/-! ### Two turns -/

/-- Epoch 3 has been over for twenty minutes, on a route that is on sync. -/
def onSync : World := { schedule := { onSync := true } }

def firstTurn : World :=
  { onSync with log := [.watch (.claimed 3 15600 (.ok ())), .watch (.claiming 3 15600),
      .watch (.observed 15600)] }

def secondTurn : World := firstTurn.note (.watch (.observed 15600))

lemma steady_secondTurn : Steady 3600 secondTurn.watched := by
  refine ⟨by decide, fun now hm => ?_⟩
  have hnow : now = 15600 := by simpa [World.watched, secondTurn, firstTurn, Obs.watch?] using hm
  subst hnow
  decide

theorem watchEpochs_lawful_sample : .claiming 3 15600 ∈ secondTurn.watched ∧
    Lawful true 3600 secondTurn.watched := by
  have hwrites : (firstTurn, secondTurn) ∈
      (watchEpochs Sample.route true 3600 2 {}).evalWrites (Sample.node 15600 0) onSync := by
    decide +kernel
  have hwrite : (watchEpochs Sample.route true 3600 2 {}).Writes Elsewhere (fun _ _ _ => True)
      onSync firstTurn secondTurn := by
    refine Prog.writes_eval ?_ ?_ hwrites
    · exact fun _ => rfl
    · exact fun _ _ => trivial
  exact ⟨by decide, (watchEpochs_lawful Sample.route true (by decide) 2 rfl hwrite
    steady_secondTurn).1⟩

end EpochWatcher

end VeaValidator
