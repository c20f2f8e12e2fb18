import VeaValidator.Coop.Logic
import Mathlib.Logic.Relation

/-!
Several programs on one store.

Every role runs one program. A scheduler picks a role, hands it an answer to its query and
lets it run to its next suspension point; a panic of one role stops them all. The store may
also be changed by the environment, and the whole system may stop at any write and be
started again on what the store holds then.
-/

namespace Coop

open Prog

/-- A system of roles `ι` over stores `σ`. -/
structure System (ι σ ε : Type) {Q : Type} (A : Q → Type) where
  /-- The stores a run begins with. -/
  init : σ → Prop
  /-- The programs a role can be started with. -/
  boot : ι → Prog σ ε A Unit → Prop
  answer : ι → (q : Q) → A q → σ → Prop
  env : σ → σ → Prop
  /-- What a store becomes when the system is started again on it. -/
  restart : σ → σ → Prop

/-- The store and what every role has left to run. -/
structure Config (ι σ ε : Type) {Q : Type} (A : Q → Type) where
  store : σ
  thread : ι → Prog σ ε A Unit

namespace Config

variable {ι σ ε Q : Type} {A : Q → Type}

/-- No role has panicked. -/
def Alive (c : Config ι σ ε A) : Prop := ∀ i e, c.thread i ≠ .panic e

/-- Role `i` runs `p` up to its next suspension point. -/
def run [DecidableEq ι] (c : Config ι σ ε A) (i : ι) (p : Prog σ ε A Unit) : Config ι σ ε A :=
  ⟨(p.burst c.store).1, Function.update c.thread i (p.burst c.store).2⟩

end Config

namespace System

variable {ι σ ε Q : Type} {A : Q → Type} [DecidableEq ι] (S : System ι σ ε A)

/-- Role `i` can go on with `p`: it has not started yet, or its query is answered. -/
inductive Enabled (c : Config ι σ ε A) (i : ι) : Prog σ ε A Unit → Prop
  | start (h : (c.thread i).query? = none) : Enabled c i (c.thread i)
  | resume {q : Q} {k : A q → Prog σ ε A Unit} {a : A q} (h : c.thread i = .await q k)
      (ha : S.answer i q a c.store) : Enabled c i (k a)

/-- A step, labelled with the role that runs in it. -/
inductive Step (c : Config ι σ ε A) : Option ι → Config ι σ ε A → Prop
  | run {i : ι} {p : Prog σ ε A Unit} (hc : c.Alive) (hp : S.Enabled c i p) :
      Step c (some i) (c.run i p)
  | env {s : σ} (h : S.env c.store s) : Step c none ⟨s, c.thread⟩
  | restart {s : σ} {th : ι → Prog σ ε A Unit} (h : S.restart c.store s)
      (hth : ∀ i, S.boot i (th i)) : Step c none ⟨s, th⟩
  | crash {i : ι} {p : Prog σ ε A Unit} {s t : σ} {th : ι → Prog σ ε A Unit} (hc : c.Alive)
      (hp : S.Enabled c i p) (ht : p.passes c.store t) (h : S.restart t s)
      (hth : ∀ i, S.boot i (th i)) : Step c none ⟨s, th⟩

/-- The configurations of the runs of the system. -/
inductive Reachable : Config ι σ ε A → Prop
  | init {c : Config ι σ ε A} (h : S.init c.store) (hth : ∀ i, S.boot i (c.thread i)) :
      Reachable c
  | step {c c' : Config ι σ ε A} {l : Option ι} (hc : Reachable c) (h : S.Step c l c') :
      Reachable c'

/-- `c'` comes after `c` in a run. -/
def Steps : Config ι σ ε A → Config ι σ ε A → Prop :=
  Relation.ReflTransGen fun c c' => ∃ l, S.Step c l c'

variable {S} in
lemma Reachable.steps {c c' : Config ι σ ε A} (hc : S.Reachable c) (h : S.Steps c c') :
    S.Reachable c' := by
  induction h with
  | refl => exact hc
  | tail _ hstep ih =>
    obtain ⟨l, hstep⟩ := hstep
    exact ih.step hstep

/-- The system with its runs cut down to those in which every answer meets `C`. -/
def restrict (C : ι → (q : Q) → A q → σ → Prop) : System ι σ ε A :=
  { S with answer := fun i q a s => S.answer i q a s ∧ C i q a s }

end System

/-! ### Playing a schedule -/

section
variable {ι σ ε Q : Type} {A : Q → Type}

/-- None of the roles `is` has panicked. -/
def Config.aliveOn (c : Config ι σ ε A) (is : List ι) : Bool :=
  is.all fun j => !(c.thread j).panicked

lemma Config.alive_of_aliveOn {c : Config ι σ ε A} {is : List ι} (his : ∀ i, i ∈ is)
    (h : c.aliveOn is = true) : c.Alive := by
  intro i e he
  have hi := List.all_eq_true.mp h i (his i)
  rw [he] at hi
  cases hi

lemma System.enabled_resume {S : System ι σ ε A} {c : Config ι σ ε A} {i : ι}
    {o : (q : Q) → A q} (ho : ∀ q, (c.thread i).query? = some q → S.answer i q (o q) c.store) :
    S.Enabled c i ((c.thread i).resume o) := by
  cases hs : (c.thread i).query? with
  | none =>
    rw [resume_of_query?_none hs]
    exact .start hs
  | some q =>
    obtain ⟨k, hp⟩ := exists_of_query? hs
    rw [hp]
    exact .resume hp (ho q hs)

variable [DecidableEq ι]

/-- The roles of a schedule run one after the other, each with its own answers. -/
def Config.play (c : Config ι σ ε A) : List (ι × ((q : Q) → A q)) → Config ι σ ε A
  | [] => c
  | (i, o) :: l => (c.run i ((c.thread i).resume o)).play l

/-- None of the roles `is` has panicked before the last step of the schedule. -/
def Config.plays (c : Config ι σ ε A) (is : List ι) : List (ι × ((q : Q) → A q)) → Bool
  | [] => true
  | (i, o) :: l => c.aliveOn is && (c.run i ((c.thread i).resume o)).plays is l

/-- Every step of the schedule begins in a store that meets `p`. -/
def Config.visits (p : σ → Bool) (c : Config ι σ ε A) : List (ι × ((q : Q) → A q)) → Bool
  | [] => true
  | (i, o) :: l => p c.store && (c.run i ((c.thread i).resume o)).visits p l

/-- A schedule that can be played leads to a reachable configuration; the answers have to be
right in the stores it visits. -/
lemma System.reachable_visits {S : System ι σ ε A} {is : List ι} (his : ∀ i, i ∈ is)
    {p : σ → Bool} {l : List (ι × ((q : Q) → A q))}
    (ho : ∀ x ∈ l, ∀ q s, p s = true → S.answer x.1 q (x.2 q) s) {c : Config ι σ ε A}
    (hc : S.Reachable c) (h : c.plays is l = true) (hv : c.visits p l = true) :
    S.Reachable (c.play l) := by
  induction l generalizing c with
  | nil => exact hc
  | cons x l ih =>
    obtain ⟨i, o⟩ := x
    rw [Config.plays, Bool.and_eq_true] at h
    rw [Config.visits, Bool.and_eq_true] at hv
    have hstep := System.Step.run (Config.alive_of_aliveOn his h.1)
      (System.enabled_resume fun q _ => ho (i, o) List.mem_cons_self q c.store hv.1)
    exact ih (fun x hx => ho x (List.mem_cons_of_mem _ hx)) (hc.step hstep) h.2 hv.2

/-- Every answer that is given to a role meets `check`. -/
def Config.checks (check : ι → (q : Q) → A q → σ → Bool) (c : Config ι σ ε A) :
    List (ι × ((q : Q) → A q)) → Bool
  | [] => true
  | (i, o) :: l => (c.thread i).query?.all (fun q => check i q (o q) c.store) &&
      (c.run i ((c.thread i).resume o)).checks check l

/-- The same for answers that are checked where they are given. -/
lemma System.reachable_checks {S : System ι σ ε A} (check : ι → (q : Q) → A q → σ → Bool)
    {is : List ι} (his : ∀ i, i ∈ is) {c : Config ι σ ε A} (hc : S.Reachable c)
    {l : List (ι × ((q : Q) → A q))}
    (hcheck : ∀ x ∈ l, ∀ q s, check x.1 q (x.2 q) s = true → S.answer x.1 q (x.2 q) s)
    (h : c.plays is l = true) (hv : c.checks check l = true) : S.Reachable (c.play l) := by
  induction l generalizing c with
  | nil => exact hc
  | cons x l ih =>
    obtain ⟨i, o⟩ := x
    rw [Config.plays, Bool.and_eq_true] at h
    rw [Config.checks, Bool.and_eq_true] at hv
    have hanswer : ∀ q, (c.thread i).query? = some q → S.answer i q (o q) c.store := by
      intro q hq
      have hq' := hv.1
      rw [hq] at hq'
      exact hcheck (i, o) List.mem_cons_self q c.store hq'
    have hstep := System.Step.run (Config.alive_of_aliveOn his h.1)
      (System.enabled_resume (o := o) hanswer)
    exact ih (hc.step hstep) (fun x hx => hcheck x (List.mem_cons_of_mem _ hx)) h.2 hv.2

/-- The same for answers that are right in every store. -/
lemma System.reachable_play {S : System ι σ ε A} {is : List ι} (his : ∀ i, i ∈ is)
    {l : List (ι × ((q : Q) → A q))} (ho : ∀ x ∈ l, ∀ q s, S.answer x.1 q (x.2 q) s)
    {c : Config ι σ ε A} (hc : S.Reachable c) (h : c.plays is l = true) :
    S.Reachable (c.play l) := by
  have hv : ∀ (l : List (ι × ((q : Q) → A q))) (c : Config ι σ ε A),
      c.visits (fun _ => true) l = true := by
    intro l
    induction l with
    | nil => exact fun _ => rfl
    | cons x l ih => exact fun c => by rw [Config.visits, ih, Bool.and_true]
  exact S.reachable_visits his (fun x hx q s _ => ho x hx q s) hc h (hv l c)

end

/-! ### Soundness of the rules -/

namespace Protocol

variable {ι σ ε Q : Type} {A : Q → Type}

/-- A program may be resumed: whatever answer it gets, it meets its weakest precondition. -/
def Ready (P : Protocol ι σ ε A) (i : ι) : Prog σ ε A Unit → σ → Prop
  | .await q k, s => ∀ a, P.answer i q a s → (k a).wp P i (fun _ => P.inv) s
  | .panic _, _ => True
  | p, s => p.wp P i (fun _ => P.inv) s

/-- The protocol covers the system: every clause of the system respects it, and every program
a role can be started with meets its weakest precondition. -/
structure Covers (P : Protocol ι σ ε A) (S : System ι σ ε A) : Prop where
  rely_refl : ∀ i s, P.rely i s s
  rely_trans : ∀ i s t u, P.rely i s t → P.rely i t u → P.rely i s u
  guar_rely : ∀ i j s t, i ≠ j → P.guar i s t → P.rely j s t
  answer : ∀ i q a s, S.answer i q a s → P.answer i q a s
  env : ∀ s t, S.env s t → P.inv s → P.inv t ∧ ∀ i, P.rely i s t
  init : ∀ s, S.init s → P.inv s
  boot : ∀ i p s t, S.boot i p → S.init s ∨ (∃ u, P.durable u ∧ S.restart u s) → P.rely i s t →
    P.inv t → p.wp P i (fun _ => P.inv) t
  durable : ∀ s, P.inv s → P.durable s
  restart : ∀ s t, P.durable s → S.restart s t → P.inv t

/-- What holds of every configuration of a covered system. -/
structure Holds (P : Protocol ι σ ε A) (c : Config ι σ ε A) : Prop where
  inv : P.inv c.store
  ready : ∀ i t, P.rely i c.store t → P.inv t → P.Ready i (c.thread i) t
  fault : ∀ i e, c.thread i = .panic e → ∃ s, P.inv s ∧ P.fault i e s

/-- What a burst of a program that meets its weakest precondition does. -/
lemma burst_spec (P : Protocol ι σ ε A) {i : ι} {p : Prog σ ε A Unit} {s : σ}
    (h : p.wp P i (fun _ => P.inv) s) :
    P.inv (p.burst s).1 ∧ Relation.ReflTransGen (P.guar i) s (p.burst s).1 ∧
      (∀ e, (p.burst s).2 = .panic e → P.fault i e (p.burst s).1) ∧
      (∀ q k, (p.burst s).2 = .await q k → P.issue i q (p.burst s).1) ∧
      (∀ t, P.rely i (p.burst s).1 t → P.inv t → P.Ready i (p.burst s).2 t) ∧
      ∀ t, p.passes s t → P.durable t ∧ Relation.ReflTransGen (P.guar i) s t := by
  induction p generalizing s with
  | ret a => exact ⟨h, .refl, nofun, nofun, fun t _ hI => hI, nofun⟩
  | panic e =>
    refine ⟨h.1, .refl, ?_, nofun, fun t _ _ => trivial, nofun⟩
    rintro e' ⟨⟩
    exact h.2
  | read k ih => exact ih s h
  | write f k ih =>
    obtain ⟨hg, hd, hk⟩ := h
    obtain ⟨h1, h2, h3, h4, h5, h6⟩ := ih hk
    refine ⟨h1, .head hg h2, h3, h4, h5, ?_⟩
    rintro t (rfl | ht)
    · exact ⟨hd, .single hg⟩
    · obtain ⟨hdt, hGt⟩ := h6 t ht
      exact ⟨hdt, .head hg hGt⟩
  | await q k ih =>
    refine ⟨h.1, .refl, nofun, ?_, fun t ht hI a ha => h.2.2 t ht hI a ha, nofun⟩
    rintro q' k' ⟨⟩
    exact h.2.1

variable {P : Protocol ι σ ε A} {S : System ι σ ε A}

lemma Covers.rely_of_guars (hP : P.Covers S) {i j : ι} (hij : i ≠ j) {s t : σ}
    (h : Relation.ReflTransGen (P.guar i) s t) : P.rely j s t := by
  induction h with
  | refl => exact hP.rely_refl j s
  | tail _ h ih => exact hP.rely_trans j _ _ _ ih (hP.guar_rely i j _ _ hij h)

lemma Covers.wp_of_enabled (hP : P.Covers S) {c : Config ι σ ε A} (hc : P.Holds c)
    (halive : c.Alive) {i : ι} {p : Prog σ ε A Unit} (hp : S.Enabled c i p) :
    p.wp P i (fun _ => P.inv) c.store := by
  have hr := hc.ready i c.store (hP.rely_refl i _) hc.inv
  cases hp with
  | start h =>
    have hne := halive i
    generalize c.thread i = p at h hr hne
    cases p with
    | await q k => cases h
    | ret a => exact hr
    | panic e => exact absurd rfl (hne e)
    | read k => exact hr
    | write f k => exact hr
  | resume h ha =>
    rw [h] at hr
    exact hr _ (hP.answer i _ _ _ ha)

lemma Covers.holds_boot (hP : P.Covers S) {s : σ} {th : ι → Prog σ ε A Unit}
    (hs : S.init s ∨ ∃ u, P.durable u ∧ S.restart u s) (hI : P.inv s)
    (hth : ∀ i, S.boot i (th i)) : P.Holds ⟨s, th⟩ := by
  have hw : ∀ i t, P.rely i s t → P.inv t → (th i).wp P i (fun _ => P.inv) t :=
    fun i t ht hIt => hP.boot i (th i) s t (hth i) hs ht hIt
  refine ⟨hI, fun i t ht hIt => ?_, fun i e he => ?_⟩
  · have hwt := hw i t ht hIt
    show P.Ready i (th i) t
    generalize th i = p at hwt
    cases p with
    | await q k => exact fun a ha => hwt.2.2 t (hP.rely_refl i t) hIt a ha
    | ret a => exact hwt
    | panic e => trivial
    | read k => exact hwt
    | write f k => exact hwt
  · have he' : th i = .panic e := he
    have hwt := hw i s (hP.rely_refl i s) hI
    rw [he'] at hwt
    exact ⟨s, hwt⟩

variable [DecidableEq ι]

lemma Covers.holds_run (hP : P.Covers S) {c : Config ι σ ε A} (hc : P.Holds c)
    (halive : c.Alive) {i : ι} {p : Prog σ ε A Unit} (hp : S.Enabled c i p) :
    P.Holds (c.run i p) := by
  obtain ⟨hI, hG, hF, -, hR, -⟩ := P.burst_spec (hP.wp_of_enabled hc halive hp)
  refine ⟨hI, fun j t ht hIt => ?_, fun j e he => ?_⟩
  · by_cases hj : j = i
    · subst hj
      simpa [Config.run] using hR t ht hIt
    · have hrel := hP.rely_of_guars (Ne.symm hj) hG
      simpa [Config.run, Function.update_of_ne hj] using
        hc.ready j t (hP.rely_trans j _ _ _ hrel ht) hIt
  · by_cases hj : j = i
    · subst hj
      exact ⟨_, hI, hF e (by simpa [Config.run] using he)⟩
    · exact hc.fault j e (by simpa [Config.run, Function.update_of_ne hj] using he)

lemma Covers.holds_step (hP : P.Covers S) {c c' : Config ι σ ε A} {l : Option ι}
    (hc : P.Holds c) (h : S.Step c l c') : P.Holds c' := by
  cases h with
  | run halive hp => exact hP.holds_run hc halive hp
  | env h =>
    obtain ⟨hI, hrel⟩ := hP.env _ _ h hc.inv
    exact ⟨hI, fun i t ht => hc.ready i t (hP.rely_trans i _ _ _ (hrel i) ht), hc.fault⟩
  | restart h hth =>
    have hd := hP.durable _ hc.inv
    exact hP.holds_boot (.inr ⟨_, hd, h⟩) (hP.restart _ _ hd h) hth
  | crash halive hp ht h hth =>
    have hd := ((P.burst_spec (hP.wp_of_enabled hc halive hp)).2.2.2.2.2 _ ht).1
    exact hP.holds_boot (.inr ⟨_, hd, h⟩) (hP.restart _ _ hd h) hth

/-- **Soundness.** The invariant of a protocol holds in every configuration a covered system
reaches, and every panic it reaches is an allowed one. -/
theorem Covers.reachable (hP : P.Covers S) {c : Config ι σ ε A} (h : S.Reachable c) :
    P.Holds c := by
  induction h with
  | init h hth => exact hP.holds_boot (.inl h) (hP.init _ h) hth
  | step _ h ih => exact hP.holds_step ih h

/-- When a role suspends on a query, the query may be issued in the store it leaves. -/
theorem Covers.issues (hP : P.Covers S) {c c' : Config ι σ ε A} (hc : S.Reachable c) {i : ι}
    (h : S.Step c (some i) c') {q : Q} (hq : (c'.thread i).query? = some q) :
    P.issue i q c'.store := by
  obtain ⟨k, hk⟩ := exists_of_query? hq
  cases h with
  | run halive hp =>
    refine (P.burst_spec (hP.wp_of_enabled (hP.reachable hc) halive hp)).2.2.2.1 q k ?_
    simpa [Config.run] using hk

/-- When a role panics, it may do so in the store it leaves. -/
theorem Covers.faults (hP : P.Covers S) {c c' : Config ι σ ε A} (hc : S.Reachable c) {i : ι}
    (h : S.Step c (some i) c') {e : ε} (he : c'.thread i = .panic e) : P.fault i e c'.store := by
  cases h with
  | run halive hp =>
    refine (P.burst_spec (hP.wp_of_enabled (hP.reachable hc) halive hp)).2.2.1 e ?_
    simpa [Config.run] using he

/-- What one step of a role does to the store is a sequence of its guaranteed writes. -/
theorem Covers.guars (hP : P.Covers S) {c c' : Config ι σ ε A} (hc : S.Reachable c) {i : ι}
    (h : S.Step c (some i) c') : Relation.ReflTransGen (P.guar i) c.store c'.store := by
  cases h with
  | run halive hp =>
    exact (P.burst_spec (hP.wp_of_enabled (hP.reachable hc) halive hp)).2.1

/-- **What no write breaks holds along every run**, crashes included. -/
theorem Covers.along (hP : P.Covers S) {G : σ → σ → Prop} (hrefl : ∀ s, G s s)
    (htrans : ∀ s t u, G s t → G t u → G s u) (hguar : ∀ i s t, P.guar i s t → G s t)
    (henv : ∀ s t, S.env s t → G s t) (hrestart : ∀ s t, S.restart s t → G s t)
    {c c' : Config ι σ ε A} (hc : S.Reachable c) (h : S.Steps c c') : G c.store c'.store := by
  have hguars : ∀ i s t, Relation.ReflTransGen (P.guar i) s t → G s t := by
    intro i s t hst
    induction hst with
    | refl => exact hrefl s
    | tail _ htu ih => exact htrans _ _ _ ih (hguar i _ _ htu)
  induction h with
  | refl => exact hrefl _
  | tail hmid hstep ih =>
    obtain ⟨l, hstep⟩ := hstep
    have hreach := hc.steps hmid
    refine htrans _ _ _ ih ?_
    cases hstep with
    | run halive hp => exact hguars _ _ _ (hP.guars hreach (.run halive hp))
    | env h => exact henv _ _ h
    | restart h _ => exact hrestart _ _ h
    | crash halive hp ht h _ =>
      have hspec := P.burst_spec (hP.wp_of_enabled (hP.reachable hreach) halive hp)
      exact htrans _ _ _ (hguars _ _ _ (hspec.2.2.2.2.2 _ ht).2) (hrestart _ _ h)

end Protocol

end Coop
