import VeaValidator.Coop.System
import Mathlib.Data.Nat.Basic

/-!
Runs with a clock.

Some answers carry a time. A clocked run is one in which these times never go back, and it carries
the last of them along. What is covered for every bound on the times is covered for the last
time of a clocked run.
-/

namespace Coop

open Prog

namespace System

variable {ι σ ε Q : Type} {A : Q → Type} (S : System ι σ ε A)
  (tick : ι → (q : Q) → A q → Option ℕ)

/-- Role `i` goes on with a program, and the clock from `n` to a time that is not before it. -/
inductive Turn (c : Config ι σ ε A) (n : ℕ) (i : ι) : Prog σ ε A Unit → ℕ → Prop
  | start (h : (c.thread i).query? = none) : Turn c n i (c.thread i) n
  | resume {q : Q} {k : A q → Prog σ ε A Unit} {a : A q} (h : c.thread i = .await q k)
      (ha : S.answer i q a c.store) (hle : n ≤ (tick i q a).getD n) :
      Turn c n i (k a) ((tick i q a).getD n)

/-- No time is later than `N`. -/
def Until (N : ℕ) (i : ι) (q : Q) (a : A q) (_ : σ) : Prop := ∀ m, tick i q a = some m → m ≤ N

section
variable {S tick} {c : Config ι σ ε A} {n m N : ℕ} {i : ι} {p : Prog σ ε A Unit}

lemma Turn.le (h : S.Turn tick c n i p m) : n ≤ m := by
  cases h with
  | start h => exact le_rfl
  | resume h ha hle => exact hle

lemma Turn.enabled (h : S.Turn tick c n i p m) (hN : m ≤ N) :
    (S.restrict (Until tick N)).Enabled c i p := by
  cases h with
  | start h => exact .start h
  | @resume q k a h ha hle =>
    refine .resume h ⟨ha, fun m hm => ?_⟩
    have hm' : (tick i q a).getD n = m := by rw [hm, Option.getD_some]
    omega

end

variable [DecidableEq ι]

/-- The runs without a restart, with their clocks. -/
inductive Clocked : ℕ → Config ι σ ε A → Prop
  | init {c : Config ι σ ε A} (h : S.init c.store) (hth : ∀ i, S.boot i (c.thread i)) : Clocked 0 c
  | run {c : Config ι σ ε A} {n m : ℕ} {i : ι} {p : Prog σ ε A Unit} (hc : Clocked n c)
      (halive : c.Alive) (hp : S.Turn tick c n i p m) : Clocked m (c.run i p)
  | env {c : Config ι σ ε A} {n : ℕ} {s : σ} (hc : Clocked n c) (h : S.env c.store s) :
      Clocked n ⟨s, c.thread⟩

variable {S tick} {c : Config ι σ ε A} {n m N : ℕ} {i : ι} {p : Prog σ ε A Unit}

/-- Until now no time is later than now. -/
lemma Clocked.reachable (h : S.Clocked tick n c) (hN : n ≤ N) :
    (S.restrict (Until tick N)).Reachable c := by
  induction h with
  | init h hth => exact .init h hth
  | run hc halive hp ih => exact (ih (le_trans hp.le hN)).step (.run halive (hp.enabled hN))
  | env hc h ih => exact (ih hN).step (.env h)

/-- **What may be issued at which time.** A role that suspends on a query in a clocked run may issue
it in the protocol of that time. -/
theorem Clocked.issues {P : ℕ → Protocol ι σ ε A}
    (hP : ∀ N, (P N).Covers (S.restrict (Until tick N))) (hc : S.Clocked tick n c)
    (halive : c.Alive) (hp : S.Turn tick c n i p m) {q : Q}
    (hq : ((c.run i p).thread i).query? = some q) : (P m).issue i q (c.run i p).store :=
  (hP m).issues (hc.reachable hp.le) (.run halive (hp.enabled le_rfl)) hq

end System

/-! ### Playing a schedule -/

section
variable {ι σ ε Q : Type} {A : Q → Type}

/-- The clock after the next step of role `i`. -/
def Config.tickAt (tick : ι → (q : Q) → A q → Option ℕ) (c : Config ι σ ε A) (n : ℕ) (i : ι)
    (o : (q : Q) → A q) : ℕ :=
  match (c.thread i).query? with
  | some q => (tick i q (o q)).getD n
  | none => n

variable {S : System ι σ ε A} {tick : ι → (q : Q) → A q → Option ℕ}

lemma System.turn_resume {c : Config ι σ ε A} {n : ℕ} {i : ι} {o : (q : Q) → A q}
    (ho : ∀ q, S.answer i q (o q) c.store) (hle : n ≤ c.tickAt tick n i o) :
    S.Turn tick c n i ((c.thread i).resume o) (c.tickAt tick n i o) := by
  unfold Config.tickAt at hle ⊢
  cases hq : (c.thread i).query? with
  | none =>
    rw [resume_of_query?_none hq]
    exact .start hq
  | some q =>
    simp only [hq] at hle
    obtain ⟨k, hp⟩ := exists_of_query? hq
    rw [hp]
    exact .resume hp (ho q) hle

variable [DecidableEq ι]

/-- The clock at the end of a schedule, if it has never gone back. -/
def Config.ticks (tick : ι → (q : Q) → A q → Option ℕ) (c : Config ι σ ε A) (n : ℕ) :
    List (ι × ((q : Q) → A q)) → Option ℕ
  | [] => some n
  | (i, o) :: l =>
    if n ≤ c.tickAt tick n i o then
      (c.run i ((c.thread i).resume o)).ticks tick (c.tickAt tick n i o) l
    else
      none

/-- A schedule that can be played leads on in a clocked run. -/
lemma System.clocked_visits {is : List ι} (his : ∀ i, i ∈ is) {p : σ → Bool}
    {l : List (ι × ((q : Q) → A q))}
    (ho : ∀ x ∈ l, ∀ q s, p s = true → S.answer x.1 q (x.2 q) s) {c : Config ι σ ε A} {n m : ℕ}
    (hc : S.Clocked tick n c) (h : c.plays is l = true) (hv : c.visits p l = true)
    (ht : c.ticks tick n l = some m) : S.Clocked tick m (c.play l) := by
  induction l generalizing c n with
  | nil =>
    obtain rfl : n = m := Option.some.inj ht
    exact hc
  | cons x l ih =>
    obtain ⟨i, o⟩ := x
    rw [Config.plays, Bool.and_eq_true] at h
    rw [Config.visits, Bool.and_eq_true] at hv
    rw [Config.ticks] at ht
    split at ht
    · next hle =>
      have hturn := System.turn_resume (fun q => ho (i, o) List.mem_cons_self q c.store hv.1) hle
      exact ih (fun x hx => ho x (List.mem_cons_of_mem _ hx))
        (hc.run (Config.alive_of_aliveOn his h.1) hturn) h.2 hv.2 ht
    · cases ht

end

end Coop
