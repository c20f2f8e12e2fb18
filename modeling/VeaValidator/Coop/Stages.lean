import VeaValidator.Coop.System

/-!
Programs that are started by another one.

An attempt begins with a prelude that runs alone. What it returns is what the roles of the system
are started with, and from then on they run side by side. A panic of the prelude or of a role ends
the attempt, and the next one begins with a prelude again, as it does when everything is stopped and
started again.

Such a system is one in which the prelude is the first thing its lead role does, and all the others
are there from the beginning: it only has fewer runs.
-/

namespace Coop

open Prog

/-- A system whose roles are started with what a prelude returns. -/
structure Staged (ι σ ε : Type) {Q : Type} (A : Q → Type) (β : Type) where
  init : σ → Prop
  /-- What the first attempt begins with. -/
  prelude : Prog σ ε A β
  /-- What an attempt after a panic begins with. -/
  retry : Prog σ ε A β
  /-- The programs a role can be started with. -/
  boot : β → ι → Prog σ ε A Unit → Prop
  /-- The role whose answers the prelude gets. -/
  lead : ι
  answer : ι → (q : Q) → A q → σ → Prop
  env : σ → σ → Prop
  /-- What a store becomes when an attempt begins on it. -/
  restart : σ → σ → Prop

/-- How far an attempt has come. -/
inductive Stage (ι σ ε : Type) {Q : Type} (A : Q → Type) (β : Type)
  | starting (p : Prog σ ε A β)
  | running (th : ι → Prog σ ε A Unit)

namespace Prog

variable {σ ε Q : Type} {A : Q → Type} {α β : Type}

/-- A program can go on with another: it has not started yet, or its query is answered. -/
inductive Next (answer : (q : Q) → A q → σ → Prop) (s : σ) : Prog σ ε A α → Prog σ ε A α → Prop
  | start {p : Prog σ ε A α} (h : p.query? = none) : Next answer s p p
  | resume {q : Q} {k : A q → Prog σ ε A α} {a : A q} (ha : answer q a s) :
      Next answer s (.await q k) (k a)

/-- The program has stopped: it has ended, or it waits for an answer. -/
def Stopped : Prog σ ε A α → Prop
  | .read _ => False
  | .write _ _ => False
  | _ => True

lemma burst_of_stopped {p : Prog σ ε A α} (h : p.Stopped) (s : σ) : p.burst s = (s, p) := by
  cases p with
  | read k => exact h.elim
  | write f k => exact h.elim
  | _ => rfl

lemma not_passes_of_stopped {p : Prog σ ε A α} (h : p.Stopped) {s t : σ} : ¬p.passes s t := by
  cases p with
  | read k => exact h.elim
  | write f k => exact h.elim
  | _ => exact id

lemma stopped_burst (p : Prog σ ε A α) (s : σ) : (p.burst s).2.Stopped := by
  induction p generalizing s with
  | read k ih => exact ih s s
  | write f k ih => exact ih (f s)
  | _ => trivial

/-- The burst of a sequence goes on with its second part when that waits first. -/
lemma burst_bind {f : β → Prog σ ε A α} (hf : ∀ b, (f b).Stopped) (p : Prog σ ε A β) (s : σ) :
    (p >>= f).burst s = ((p.burst s).1, (p.burst s).2 >>= f) := by
  show (p.bind f).burst s = ((p.burst s).1, (p.burst s).2.bind f)
  induction p generalizing s with
  | ret b => exact burst_of_stopped (hf b) s
  | panic e => rfl
  | read k ih => exact ih s s
  | write g k ih => exact ih (g s)
  | await q k ih => rfl

lemma passes_bind {f : β → Prog σ ε A α} {p : Prog σ ε A β} {s t : σ} (h : p.passes s t) :
    (p >>= f).passes s t := by
  show (p.bind f).passes s t
  induction p generalizing s with
  | ret b => exact h.elim
  | panic e => exact h.elim
  | read k ih => exact ih s h
  | write g k ih =>
    rcases h with h | h
    · exact .inl h
    · exact .inr (ih h)
  | await q k ih => exact h.elim

end Prog

namespace Staged

variable {ι σ ε Q : Type} {A : Q → Type} {β : Type}

/-- The store and the stage of the attempt. -/
structure Config (ι σ ε : Type) {Q : Type} (A : Q → Type) (β : Type) where
  store : σ
  stage : Stage ι σ ε A β

/-- The prelude or a role has panicked. -/
def Config.Crashed (c : Config ι σ ε A β) : Prop :=
  match c.stage with
  | .starting p => ∃ e, p = .panic e
  | .running th => ∃ i e, th i = .panic e

variable (T : Staged ι σ ε A β)

/-- Every role can be started, and the lead role waits first. -/
structure Waits : Prop where
  exists_boot : ∀ b i, ∃ p, T.boot b i p
  stopped : ∀ b p, T.boot b T.lead p → p.Stopped
  alive : ∀ b i p e, T.boot b i p → p ≠ .panic e

variable {T}

/-- A prelude that goes on makes its lead role go on, unless it has ended. -/
lemma next_bind {answer : (q : Q) → A q → σ → Prop} {s : σ} {p p' : Prog σ ε A β}
    (f : β → Prog σ ε A Unit) (h : p.Next answer s p') :
    (p' = p ∧ p.Stopped) ∨
      (p >>= f).Next answer s (p' >>= f) ∧ ∀ e, p >>= f ≠ .panic e := by
  cases h with
  | resume ha => exact .inr ⟨.resume ha, nofun⟩
  | start h =>
    cases p with
    | ret b => exact .inl ⟨rfl, trivial⟩
    | panic e => exact .inl ⟨rfl, trivial⟩
    | read k => exact .inr ⟨.start rfl, nofun⟩
    | write g k => exact .inr ⟨.start rfl, nofun⟩
    | await q k => cases h

lemma enabled_of_next {S : System ι σ ε A} {s : σ} {th : ι → Prog σ ε A Unit} {i : ι}
    {p p' : Prog σ ε A Unit} (hth : th i = p) (h : p.Next (S.answer i) s p') :
    S.Enabled ⟨s, th⟩ i p' := by
  subst hth
  generalize hp : th i = p at h
  cases h with
  | start h =>
    rw [← hp] at h ⊢
    exact .start h
  | resume ha => exact .resume hp ha

lemma alive_of_not_crashed {s : σ} {th : ι → Prog σ ε A Unit}
    (h : ¬(⟨s, .running th⟩ : Config ι σ ε A β).Crashed) : (Coop.Config.mk s th).Alive :=
  fun i e he => h ⟨i, e, he⟩

/-- Programs for all roles but the lead, and for the lead whatever the prelude returns. -/
lemma Waits.choose (hT : T.Waits) [Inhabited β] : ∃ (f : β → Prog σ ε A Unit)
    (th : ι → Prog σ ε A Unit), (∀ b, T.boot b T.lead (f b)) ∧
      ∀ i, i ≠ T.lead → ∃ b, T.boot b i (th i) := by
  obtain ⟨f, hf⟩ := Classical.skolem.mp fun b => hT.exists_boot b T.lead
  obtain ⟨th, hth⟩ := Classical.skolem.mp (hT.exists_boot default)
  exact ⟨f, th, hf, fun i _ => ⟨default, hth i⟩⟩

variable [DecidableEq ι] (T)

/-- The same roles from the beginning, one of which begins with the prelude. -/
def flat : System ι σ ε A where
  init := T.init
  boot i p :=
    if i = T.lead then
      ∃ pre f, (pre = T.prelude ∨ pre = T.retry) ∧ (∀ b, T.boot b i (f b)) ∧ p = pre >>= f
    else ∃ b, T.boot b i p
  answer := T.answer
  env := T.env
  restart := T.restart

/-- A step of the system. -/
inductive Step (c : Config ι σ ε A β) : Config ι σ ε A β → Prop
  /-- The prelude runs up to its next query, or panics. -/
  | start {p p' : Prog σ ε A β} (h : c.stage = .starting p)
      (hp : p.Next (T.answer T.lead) c.store p')
      (hret : ∀ b, (p'.burst c.store).2 ≠ .ret b) :
      Step c ⟨(p'.burst c.store).1, .starting (p'.burst c.store).2⟩
  /-- The prelude returns, and the roles are started. -/
  | launch {p p' : Prog σ ε A β} {b : β} {th : ι → Prog σ ε A Unit} (h : c.stage = .starting p)
      (hp : p.Next (T.answer T.lead) c.store p') (hret : (p'.burst c.store).2 = .ret b)
      (hth : ∀ i, T.boot b i (th i)) : Step c ⟨(p'.burst c.store).1, .running th⟩
  | run {th : ι → Prog σ ε A Unit} {i : ι} {p : Prog σ ε A Unit} (h : c.stage = .running th)
      (hc : ¬c.Crashed) (hp : (th i).Next (T.answer i) c.store p) :
      Step c ⟨(p.burst c.store).1, .running (Function.update th i (p.burst c.store).2)⟩
  | env {s : σ} (h : T.env c.store s) : Step c ⟨s, c.stage⟩
  /-- After a panic. -/
  | again {s : σ} (hc : c.Crashed) (h : T.restart c.store s) : Step c ⟨s, .starting T.retry⟩
  /-- Everything is stopped between two bursts. -/
  | stop {s : σ} (h : T.restart c.store s) : Step c ⟨s, .starting T.prelude⟩
  /-- Everything is stopped after a write of the prelude. -/
  | stopStart {p p' : Prog σ ε A β} {s t : σ} (h : c.stage = .starting p)
      (hp : p.Next (T.answer T.lead) c.store p') (ht : p'.passes c.store t)
      (hs : T.restart t s) : Step c ⟨s, .starting T.prelude⟩
  /-- Everything is stopped after a write of a role. -/
  | stopRun {th : ι → Prog σ ε A Unit} {i : ι} {p : Prog σ ε A Unit} {s t : σ}
      (h : c.stage = .running th) (hc : ¬c.Crashed) (hp : (th i).Next (T.answer i) c.store p)
      (ht : p.passes c.store t) (hs : T.restart t s) : Step c ⟨s, .starting T.prelude⟩

/-- The configurations of the runs. -/
inductive Reachable : Config ι σ ε A β → Prop
  | init {s : σ} (h : T.init s) : Reachable ⟨s, .starting T.prelude⟩
  | step {c c' : Config ι σ ε A β} (hc : Reachable c) (h : T.Step c c') : Reachable c'

/-! ### The prelude as a part of its lead role -/

/-- The configuration with `p` left of the prelude, whatever the roles will be started with. -/
def Awaited (s : σ) (p : Prog σ ε A β) : Prop :=
  ∀ (f : β → Prog σ ε A Unit) (th : ι → Prog σ ε A Unit), (∀ b, T.boot b T.lead (f b)) →
    (∀ i, i ≠ T.lead → ∃ b, T.boot b i (th i)) → th T.lead = p >>= f →
    T.flat.Reachable ⟨s, th⟩

/-- What a configuration is in the flat system. -/
def Flattened (c : Config ι σ ε A β) : Prop :=
  match c.stage with
  | .starting p => T.Awaited c.store p
  | .running th => T.flat.Reachable ⟨c.store, th⟩

variable {T}

/-- One step of the prelude in the flat system: it goes on there, or has nothing left to do. -/
lemma Awaited.enabled (hT : T.Waits) {s : σ} {p p' : Prog σ ε A β} (h : T.Awaited s p)
    (hp : p.Next (T.answer T.lead) s p') {f : β → Prog σ ε A Unit} {th : ι → Prog σ ε A Unit}
    (hf : ∀ b, T.boot b T.lead (f b)) (hth : ∀ i, i ≠ T.lead → ∃ b, T.boot b i (th i)) :
    (p' = p ∧ p.Stopped) ∨ ∃ c : Coop.Config ι σ ε A, T.flat.Reachable c ∧ c.Alive ∧
      c = ⟨s, Function.update th T.lead (p >>= f)⟩ ∧ T.flat.Enabled c T.lead (p' >>= f) := by
  rcases next_bind f hp with hstopped | ⟨hnext, hne⟩
  · exact .inl hstopped
  · have hlead : Function.update th T.lead (p >>= f) T.lead = p >>= f := Function.update_self ..
    have hothers : ∀ i, i ≠ T.lead → Function.update th T.lead (p >>= f) i = th i :=
      fun i hi => Function.update_of_ne hi ..
    refine .inr ⟨_, h f _ hf (fun i hi => ?_) hlead, fun i e he => ?_, rfl,
      enabled_of_next hlead hnext⟩
    · rw [hothers i hi]
      exact hth i hi
    · by_cases hi : i = T.lead
      · subst hi
        exact hne e (hlead.symm.trans he)
      · obtain ⟨b, hb⟩ := hth i hi
        exact hT.alive b i _ e hb ((hothers i hi).symm.trans he)

/-- What is left of the prelude after a burst is awaited too. -/
lemma Awaited.burst (hT : T.Waits) {s : σ} {p p' : Prog σ ε A β} (h : T.Awaited s p)
    (hp : p.Next (T.answer T.lead) s p') : T.Awaited (p'.burst s).1 (p'.burst s).2 := by
  intro f th hf hth hlead
  rcases h.enabled hT hp hf hth with ⟨rfl, hstopped⟩ | ⟨c, hc, halive, rfl, henabled⟩
  · rw [burst_of_stopped hstopped] at hlead ⊢
    exact h f th hf hth hlead
  · have hrun := hc.step (.run halive henabled)
    have hburst := burst_bind (fun b => hT.stopped b _ (hf b)) p' s
    rw [Config.run, hburst, Function.update_idem, ← hlead, Function.update_eq_self] at hrun
    exact hrun

/-- A prelude that is awaited has reached a configuration of the flat system. -/
lemma Awaited.exists_reachable (hT : T.Waits) [Inhabited β] {s : σ} {p : Prog σ ε A β}
    (h : T.Awaited s p) : ∃ th, T.flat.Reachable ⟨s, th⟩ := by
  obtain ⟨f, th, hf, hth⟩ := hT.choose
  refine ⟨Function.update th T.lead (p >>= f), h f _ hf (fun i hi => ?_) (Function.update_self ..)⟩
  rw [Function.update_of_ne hi]
  exact hth i hi

lemma Flattened.exists_reachable (hT : T.Waits) [Inhabited β] {c : Config ι σ ε A β}
    (h : T.Flattened c) : ∃ th, T.flat.Reachable ⟨c.store, th⟩ := by
  obtain ⟨s, p | th⟩ := c
  · exact Awaited.exists_reachable hT h
  · exact ⟨th, h⟩

lemma flat_boot_lead {p : Prog σ ε A Unit} : T.flat.boot T.lead p ↔ ∃ pre f,
    (pre = T.prelude ∨ pre = T.retry) ∧ (∀ b, T.boot b T.lead (f b)) ∧ p = pre >>= f :=
  iff_of_eq (if_pos rfl)

lemma flat_boot_other {i : ι} (hi : i ≠ T.lead) {p : Prog σ ε A Unit} :
    T.flat.boot i p ↔ ∃ b, T.boot b i p := iff_of_eq (if_neg hi)

/-- The roles of the flat system that an attempt begins with. -/
lemma flat_boot {pre : Prog σ ε A β} (hpre : pre = T.prelude ∨ pre = T.retry)
    {f : β → Prog σ ε A Unit} {th : ι → Prog σ ε A Unit} (hf : ∀ b, T.boot b T.lead (f b))
    (hth : ∀ i, i ≠ T.lead → ∃ b, T.boot b i (th i)) (hlead : th T.lead = pre >>= f) (i : ι) :
    T.flat.boot i (th i) := by
  by_cases hi : i = T.lead
  · subst hi
    exact flat_boot_lead.mpr ⟨pre, f, hpre, hf, hlead⟩
  · exact (flat_boot_other hi).mpr (hth i hi)

lemma Flattened.step (hT : T.Waits) [Inhabited β] {c c' : Config ι σ ε A β} (h : T.Flattened c)
    (hstep : T.Step c c') : T.Flattened c' := by
  have hbegin : ∀ (s t : σ) (pre : Prog σ ε A β), (pre = T.prelude ∨ pre = T.retry) →
      (∃ th, T.flat.Reachable ⟨t, th⟩) → T.restart t s → T.Awaited s pre := by
    rintro s t pre hpre ⟨th₀, hreach⟩ hs f th hf hth hlead
    exact hreach.step (.restart hs (flat_boot hpre hf hth hlead))
  obtain ⟨s, stage⟩ := c
  cases hstep with
  | start hstage hp _ =>
    obtain rfl : stage = _ := hstage
    exact Awaited.burst hT h hp
  | @launch p p' b th hstage hp hret hth =>
    obtain rfl : stage = _ := hstage
    have hburst := Awaited.burst hT h hp
    rw [hret] at hburst
    -- what the lead role is started with is among the programs it may have been started with
    obtain ⟨f, -, hf, -⟩ := hT.choose
    classical
    refine hburst (fun b' => if b' = b then th T.lead else f b') th (fun b' => ?_)
      (fun i _ => ⟨b, hth i⟩) (if_pos rfl).symm
    by_cases hb : b' = b
    · rw [if_pos hb, hb]
      exact hth T.lead
    · rw [if_neg hb]
      exact hf b'
  | run hstage hc hp =>
    obtain rfl : stage = _ := hstage
    exact System.Reachable.step h (.run (alive_of_not_crashed hc) (enabled_of_next rfl hp))
  | env henv =>
    cases stage with
    | starting p =>
      exact fun f th hf hth hlead => (h f th hf hth hlead).step (.env henv)
    | running th => exact System.Reachable.step h (.env henv)
  | again _ hs => exact hbegin _ _ _ (.inr rfl) (h.exists_reachable hT) hs
  | stop hs => exact hbegin _ _ _ (.inl rfl) (h.exists_reachable hT) hs
  | stopStart hstage hp ht hs =>
    obtain rfl : stage = _ := hstage
    intro f th hf hth hlead
    rcases Awaited.enabled hT h hp hf hth with ⟨rfl, hstopped⟩ | ⟨c, hc, halive, rfl, henabled⟩
    · exact absurd ht (not_passes_of_stopped hstopped)
    · exact hc.step (.crash halive henabled (passes_bind ht) hs (flat_boot (.inl rfl) hf hth hlead))
  | stopRun hstage hc hp ht hs =>
    obtain rfl : stage = _ := hstage
    intro f th' hf hth hlead
    exact System.Reachable.step h (.crash (alive_of_not_crashed hc) (enabled_of_next rfl hp) ht hs
      (flat_boot (.inl rfl) hf hth hlead))

/-- **A staged system is a flat one with fewer runs.** When the lead role waits first, each
configuration it reaches is one the flat system reaches, in which the lead role has the rest of the
prelude before it and the others have not begun. -/
theorem Reachable.flattened (hT : T.Waits) [Inhabited β] {c : Config ι σ ε A β}
    (hc : T.Reachable c) : T.Flattened c := by
  induction hc with
  | init h => exact fun f th hf hth hlead => .init h (flat_boot (.inl rfl) hf hth hlead)
  | step _ hstep ih => exact ih.step hT hstep

/-! ### Playing a schedule -/

/-- The prelude runs to its end with the answers of `o`, and the roles are started. -/
lemma reachable_launch {o : (q : Q) → A q} {v : σ → Bool}
    (ho : ∀ q s, v s = true → T.answer T.lead q (o q) s) {b : β} {t : σ}
    {th : ι → Prog σ ε A Unit} (hth : ∀ i, T.boot b i (th i)) {s : σ} (hs : T.init s)
    (he : T.prelude.eval o s = (.ok b, t)) (hv : T.prelude.evalVisits o v s = true) :
    T.Reachable ⟨t, .running th⟩ := by
  -- the part of a burst that has been run does not matter
  have hrun : ∀ (r p p' : Prog σ ε A β) (s s' : σ), T.Reachable ⟨s, .starting p⟩ →
      p.Next (T.answer T.lead) s p' → p'.burst s = r.burst s' → r.eval o s' = (.ok b, t) →
      r.evalVisits o v s' = true → T.Reachable ⟨t, .running th⟩ := by
    intro r
    induction r with
    | ret b' =>
      intro p p' s s' hc hnext hburst he _
      obtain ⟨rfl, rfl⟩ : b' = b ∧ s' = t := by simpa [eval] using he
      have hlaunch := hc.step (.launch rfl hnext (by rw [hburst]; rfl) hth)
      rwa [hburst] at hlaunch
    | panic e =>
      intro p p' s s' _ _ _ he
      cases he
    | read k ih => exact fun p p' s s' hc hnext hburst he hv => ih s' p p' s s' hc hnext hburst he hv
    | write f k ih => exact fun p p' s s' hc hnext hburst he hv => ih p p' s (f s') hc hnext hburst he hv
    | await q k ih =>
      intro p p' s s' hc hnext hburst he hv
      rw [evalVisits, Bool.and_eq_true] at hv
      have hwaits : ∀ b, (p'.burst s).2 ≠ .ret b := by
        rw [hburst]
        rintro b ⟨⟩
      have hstart := hc.step (.start rfl hnext hwaits)
      rw [hburst] at hstart
      exact ih (o q) _ _ s' s' hstart (.resume (ho q s' hv.1)) rfl he hv.2
  cases hq : T.prelude.query? with
  | none => exact hrun _ _ _ s s (.init hs) (.start hq) rfl he hv
  | some q =>
    obtain ⟨k, hk⟩ := exists_of_query? hq
    rw [hk] at he hv
    rw [evalVisits, Bool.and_eq_true] at hv
    refine hrun (k (o q)) _ _ s s (.init hs) ?_ rfl he hv.2
    rw [hk]
    exact .resume (ho q s hv.1)

/-- What can be played from a configuration of the roles is reached. -/
lemma reachable_visits {is : List ι} (his : ∀ i, i ∈ is) {v : σ → Bool}
    {l : List (ι × ((q : Q) → A q))}
    (ho : ∀ x ∈ l, ∀ q s, v s = true → T.answer x.1 q (x.2 q) s) {c : Coop.Config ι σ ε A}
    (hc : T.Reachable ⟨c.store, .running c.thread⟩) (h : c.plays is l = true)
    (hv : c.visits v l = true) :
    T.Reachable ⟨(c.play l).store, .running (c.play l).thread⟩ := by
  induction l generalizing c with
  | nil => exact hc
  | cons x l ih =>
    obtain ⟨i, o⟩ := x
    rw [Config.plays, Bool.and_eq_true] at h
    rw [Config.visits, Bool.and_eq_true] at hv
    have hnext : (c.thread i).Next (T.answer i) c.store ((c.thread i).resume o) := by
      cases hq : (c.thread i).query? with
      | none =>
        rw [resume_of_query?_none hq]
        exact .start hq
      | some q =>
        obtain ⟨k, hk⟩ := exists_of_query? hq
        rw [hk]
        exact .resume (ho (i, o) List.mem_cons_self q c.store hv.1)
    have halive := Config.alive_of_aliveOn his h.1
    refine ih (fun x hx => ho x (List.mem_cons_of_mem _ hx)) (hc.step (.run rfl ?_ hnext)) h.2 hv.2
    rintro ⟨j, e, he⟩
    exact halive j e he

end Staged

/-! ### The rules of a staged system -/

namespace Protocol

variable {ι κ σ ε Q : Type} {A : Q → Type} {α β : Type} {P : Protocol κ σ ε A} {i : κ}
  {R : α → σ → Prop} {p : Prog σ ε A α} {s t : σ}

/-- Whatever the others do meanwhile, the program can go on. -/
def Awaits (P : Protocol κ σ ε A) (i : κ) (R : α → σ → Prop) (p : Prog σ ε A α) (s : σ) : Prop :=
  ∀ t, P.rely i s t → P.inv t → match p with
    | .await q k => ∀ a, P.answer i q a t → (k a).wp P i R t
    | .panic _ => True
    | p => p.wp P i R t

lemma Awaits.rely (htrans : ∀ s t u, P.rely i s t → P.rely i t u → P.rely i s u)
    (h : P.Awaits i R p s) (hst : P.rely i s t) : P.Awaits i R p t :=
  fun u htu => h u (htrans s t u hst htu)

/-- A program that meets its weakest precondition whatever the others do. -/
lemma Awaits.of_wp (hrefl : ∀ s, P.rely i s s)
    (h : ∀ t, P.rely i s t → P.inv t → p.wp P i R t) : P.Awaits i R p s := by
  intro t hst hIt
  have hw := h t hst hIt
  cases p with
  | await q k => exact fun a ha => hw.2.2 t (hrefl t) hIt a ha
  | panic e => trivial
  | _ => exact hw

lemma Awaits.next (hrefl : ∀ s, P.rely i s s) {answer : (q : Q) → A q → σ → Prop}
    (hanswer : ∀ q a s, answer q a s → P.answer i q a s) (h : P.Awaits i R p s) (hI : P.inv s)
    (hp : ∀ e, p ≠ .panic e) {p' : Prog σ ε A α} (hnext : p.Next answer s p') :
    p'.wp P i R s := by
  have hw := h s (hrefl s) hI
  cases hnext with
  | resume ha => exact hw _ (hanswer _ _ _ ha)
  | start hq =>
    cases p with
    | await q k => cases hq
    | panic e => exact absurd rfl (hp e)
    | _ => exact hw

lemma wp_burst (h : p.wp P i R s) : (p.burst s).2.wp P i R (p.burst s).1 := by
  induction p generalizing s with
  | read k ih => exact ih s h
  | write f k ih => exact ih h.2.2
  | _ => exact h

lemma wp_guars (h : p.wp P i R s) : Relation.ReflTransGen (P.guar i) s (p.burst s).1 := by
  induction p generalizing s with
  | read k ih => exact ih s h
  | write f k ih => exact .head h.1 (ih h.2.2)
  | _ => exact .refl

lemma wp_passes (h : p.wp P i R s) (ht : p.passes s t) : P.durable t := by
  induction p generalizing s with
  | read k ih => exact ih s h ht
  | write f k ih =>
    rcases ht with rfl | ht
    · exact h.2.1
    · exact ih h.2.2 ht
  | _ => exact ht.elim

/-- The invariant holds when a program has stopped. -/
lemma inv_of_stopped (hR : ∀ a t, R a t → P.inv t) (hp : p.Stopped) (h : p.wp P i R s) :
    P.inv s := by
  cases p with
  | ret a => exact hR a s h
  | panic e => exact h.1
  | read k => exact hp.elim
  | write f k => exact hp.elim
  | await q k => exact h.1

/-- What is left after a burst, when it has not returned or nothing is asked of the result. -/
lemma awaits_burst (h : p.wp P i R s)
    (hret : ∀ a t, (p.burst s).2 = .ret a → P.inv t → R a t) :
    P.Awaits i R (p.burst s).2 (p.burst s).1 := by
  intro t hst hIt
  have hw := wp_burst h
  have hstopped := stopped_burst p s
  generalize (p.burst s).2 = r at hw hstopped hret
  cases r with
  | ret a => exact hret a t rfl hIt
  | panic e => trivial
  | read k => exact hstopped.elim
  | write f k => exact hstopped.elim
  | await q k => exact fun a ha => hw.2.2 t hst hIt a ha

end Protocol

namespace Staged

variable {ι σ ε Q : Type} {A : Q → Type} {β : Type} {P : Protocol (Option ι) σ ε A}
  {T : Staged ι σ ε A β}

/-- The roles can be started with `b`. -/
def Ready (P : Protocol (Option ι) σ ε A) (T : Staged ι σ ε A β) (b : β) (s : σ) : Prop :=
  P.inv s ∧ ∀ i p, T.boot b i p → ∀ t, P.rely (some i) s t → P.inv t →
    p.wp P (some i) (fun _ => P.inv) t

/-- The protocol covers the staged system. The prelude has its own rules: nobody else runs besides
it, so nobody relies on what it does. -/
structure Covers (P : Protocol (Option ι) σ ε A) (T : Staged ι σ ε A β) : Prop where
  rely_refl : ∀ i s, P.rely i s s
  rely_trans : ∀ i s t u, P.rely i s t → P.rely i t u → P.rely i s u
  guar_rely : ∀ i j s t, i ≠ j → P.guar (some i) s t → P.rely (some j) s t
  lead : ∀ q a s, T.answer T.lead q a s → P.answer none q a s
  answer : ∀ i q a s, T.answer i q a s → P.answer (some i) q a s
  env : ∀ s t, T.env s t → P.inv s → P.inv t ∧ ∀ i, P.rely i s t
  init : ∀ s, T.init s → P.inv s
  start : ∀ pre s t, pre = T.prelude ∨ pre = T.retry →
    T.init s ∨ (∃ u, P.durable u ∧ T.restart u s) → P.rely none s t → P.inv t →
    pre.wp P none (Ready P T) t
  durable : ∀ s, P.inv s → P.durable s
  restart : ∀ s t, P.durable s → T.restart s t → P.inv t

/-- What holds of every configuration of a covered system. -/
structure Holds (P : Protocol (Option ι) σ ε A) (T : Staged ι σ ε A β) (c : Config ι σ ε A β) :
    Prop where
  inv : P.inv c.store
  starting : ∀ p, c.stage = .starting p → P.Awaits none (Ready P T) p c.store
  running : ∀ th, c.stage = .running th → ∀ i, P.Awaits (some i) (fun _ => P.inv) (th i) c.store

/-- No role and no prelude waits for the answer to a query that is not allowed. -/
def Issues (P : Protocol (Option ι) σ ε A) (c : Config ι σ ε A β) : Prop :=
  match c.stage with
  | .starting p => ∀ q, p.query? = some q → P.issue none q c.store
  | .running th => ∀ i q, (th i).query? = some q → P.issue (some i) q c.store

lemma issue_of_wp {α : Type} {i : Option ι} {R : α → σ → Prop} {p : Prog σ ε A α} {s : σ} {q : Q}
    (h : p.wp P i R s) (hq : p.query? = some q) : P.issue i q s := by
  obtain ⟨k, rfl⟩ := exists_of_query? hq
  exact h.2.1

lemma Covers.rely_of_guars (hP : Covers P T) {i j : ι} (hij : i ≠ j) {s t : σ}
    (h : Relation.ReflTransGen (P.guar (some i)) s t) : P.rely (some j) s t := by
  induction h with
  | refl => exact hP.rely_refl _ s
  | tail _ h ih => exact hP.rely_trans _ _ _ _ ih (hP.guar_rely i j _ _ hij h)

variable [DecidableEq ι]

/-- **Soundness.** The invariant holds in every configuration, and every query that is waited for is
allowed, when the others leave alone what it needs. -/
theorem Covers.reachable (hP : Covers P T)
    (hstay : ∀ i q s t, P.issue i q s → P.rely i s t → P.inv t → P.issue i q t)
    {c : Config ι σ ε A β} (hc : T.Reachable c) : Holds P T c ∧ Issues P c := by
  have hbegin : ∀ pre s, pre = T.prelude ∨ pre = T.retry →
      T.init s ∨ (∃ u, P.durable u ∧ T.restart u s) → P.inv s →
      Holds P T ⟨s, .starting pre⟩ ∧ Issues P (⟨s, .starting pre⟩ : Config ι σ ε A β) := by
    intro pre s hpre hs hI
    refine ⟨⟨hI, ?_, nofun⟩, fun q hq => ?_⟩
    · rintro p ⟨⟩
      exact .of_wp (hP.rely_refl none) fun t hst hIt => hP.start pre s t hpre hs hst hIt
    · exact issue_of_wp (hP.start pre s s hpre hs (hP.rely_refl none s) hI) hq
  -- the burst of the prelude or of a role, from what is known of it
  have hprelude : ∀ (c : Config ι σ ε A β) p p', Holds P T c → c.stage = .starting p →
      p.Next (T.answer T.lead) c.store p' → (∀ e, p ≠ .panic e) →
      p'.wp P none (Ready P T) c.store := fun c p p' hc hp hnext hne =>
    (hc.starting p hp).next (hP.rely_refl none) hP.lead hc.inv hne hnext
  have hrole : ∀ (c : Config ι σ ε A β) th i p, Holds P T c → c.stage = .running th →
      ¬c.Crashed → (th i).Next (T.answer i) c.store p →
      p.wp P (some i) (fun _ => P.inv) c.store := by
    intro c th i p hc hth hcrash hnext
    refine (hc.running th hth i).next (hP.rely_refl _) (hP.answer i) hc.inv (fun e he => ?_) hnext
    obtain ⟨s, stage⟩ := c
    obtain rfl : stage = _ := hth
    exact hcrash ⟨i, e, he⟩
  induction hc with
  | init h => exact hbegin _ _ (.inl rfl) (.inl h) (hP.init _ h)
  | @step c c' _ hstep ih =>
    obtain ⟨hc, hissues⟩ := ih
    cases hstep with
    | @start p p' hstage hp hret =>
      by_cases hpanic : ∃ e, p = .panic e
      · -- a prelude that has panicked stays as it is
        obtain ⟨e, rfl⟩ := hpanic
        cases hp
        refine ⟨⟨hc.inv, ?_, nofun⟩, nofun⟩
        rintro _ ⟨⟩
        exact fun _ _ _ => trivial
      · have hw := hprelude c p p' hc hstage hp fun e he => hpanic ⟨e, he⟩
        have hburst := Protocol.wp_burst hw
        refine ⟨⟨Protocol.inv_of_stopped (fun _ _ h => h.1) (stopped_burst _ _) hburst, ?_, nofun⟩,
          fun q hq => issue_of_wp hburst hq⟩
        rintro _ ⟨⟩
        exact Protocol.awaits_burst hw fun b _ hb => absurd hb (hret b)
    | @launch p p' b th hstage hp hret hth =>
      have hne : ∀ e, p ≠ .panic e := by
        rintro e rfl
        cases hp
        cases hret
      have hready := Protocol.wp_burst (hprelude c p p' hc hstage hp hne)
      rw [hret] at hready
      obtain ⟨hI, hboot⟩ : Ready P T b (p'.burst c.store).1 := hready
      refine ⟨⟨hI, nofun, ?_⟩, fun i q hq => ?_⟩
      · rintro _ ⟨⟩ i
        exact .of_wp (hP.rely_refl _) (hboot i _ (hth i))
      · exact issue_of_wp (hboot i _ (hth i) _ (hP.rely_refl _ _) hI) hq
    | @run th i p hstage hcrash hp =>
      have hw := hrole c th i p hc hstage hcrash hp
      have hburst := Protocol.wp_burst hw
      have hI := Protocol.inv_of_stopped (fun _ _ h => h) (stopped_burst _ _) hburst
      have hrely : ∀ j, j ≠ i → P.rely (some j) c.store (p.burst c.store).1 :=
        fun j hj => hP.rely_of_guars (Ne.symm hj) (Protocol.wp_guars hw)
      refine ⟨⟨hI, nofun, ?_⟩, fun j q hq => ?_⟩
      · rintro _ ⟨⟩ j
        by_cases hj : j = i
        · subst hj
          rw [Function.update_self]
          exact Protocol.awaits_burst hw fun _ _ _ h => h
        · rw [Function.update_of_ne hj]
          exact (hc.running th hstage j).rely (hP.rely_trans _) (hrely j hj)
      · by_cases hj : j = i
        · subst hj
          rw [Function.update_self] at hq
          exact issue_of_wp hburst hq
        · rw [Function.update_of_ne hj] at hq
          obtain ⟨s, stage⟩ := c
          obtain rfl : stage = _ := hstage
          exact hstay _ q _ _ (hissues j q hq) (hrely j hj) hI
    | env henv =>
      obtain ⟨hI, hrely⟩ := hP.env _ _ henv hc.inv
      refine ⟨⟨hI, fun p hp => (hc.starting p hp).rely (hP.rely_trans _) (hrely none),
        fun th hth i => (hc.running th hth i).rely (hP.rely_trans _) (hrely _)⟩, ?_⟩
      obtain ⟨s, p | th⟩ := c
      · exact fun q hq => hstay _ q _ _ (hissues q hq) (hrely none) hI
      · exact fun i q hq => hstay _ q _ _ (hissues i q hq) (hrely _) hI
    | again _ hs =>
      have hd := hP.durable _ hc.inv
      exact hbegin _ _ (.inr rfl) (.inr ⟨_, hd, hs⟩) (hP.restart _ _ hd hs)
    | stop hs =>
      have hd := hP.durable _ hc.inv
      exact hbegin _ _ (.inl rfl) (.inr ⟨_, hd, hs⟩) (hP.restart _ _ hd hs)
    | @stopStart p p' s t hstage hp ht hs =>
      have hne : ∀ e, p ≠ .panic e := by
        rintro e rfl
        cases hp
        exact ht
      have hd := Protocol.wp_passes (hprelude c p p' hc hstage hp hne) ht
      exact hbegin _ _ (.inl rfl) (.inr ⟨_, hd, hs⟩) (hP.restart _ _ hd hs)
    | stopRun hstage hcrash hp ht hs =>
      have hd := Protocol.wp_passes (hrole c _ _ _ hc hstage hcrash hp) ht
      exact hbegin _ _ (.inl rfl) (.inr ⟨_, hd, hs⟩) (hP.restart _ _ hd hs)

end Staged

end Coop
