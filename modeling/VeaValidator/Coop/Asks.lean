import VeaValidator.Coop.System
import VeaValidator.Coop.Talk

/-!
The queries of a program.

Which queries a program can come to is read off its text. A program whose queries are harmless
meets its weakest precondition under any conditions on the others, and what a query needs holds as
long as a role waits for its answer.
-/

namespace Coop

namespace Prog

variable {ι σ ε Q : Type} {A : Q → Type} {α β : Type}

/-- Whatever is answered, every query of the program is in `C`. -/
def Asks (C : Q → Prop) : Prog σ ε A α → Prop
  | .ret _ => True
  | .panic _ => True
  | .read k => ∀ s, (k s).Asks C
  | .write _ k => k.Asks C
  | .await q k => C q ∧ ∀ a, (k a).Asks C

namespace Asks

variable {C : Q → Prop}

lemma pure {a : α} : (Pure.pure a : Prog σ ε A α).Asks C := trivial

lemma panic {e : ε} : (.panic e : Prog σ ε A α).Asks C := trivial

lemma gets {f : σ → α} : (gets f : Prog σ ε A α).Asks C := fun _ => trivial

lemma modify {f : σ → σ} : (modify f : Prog σ ε A Unit).Asks C := trivial

lemma ask {q : Q} (hq : C q) : (ask q : Prog σ ε A (A q)).Asks C := ⟨hq, fun _ => trivial⟩

lemma bind {p : Prog σ ε A α} {g : α → Prog σ ε A β} (hp : p.Asks C) (hg : ∀ a, (g a).Asks C) :
    (p >>= g).Asks C := by
  show (p.bind g).Asks C
  induction p with
  | ret a => exact hg a
  | panic e => trivial
  | read k ih => exact fun s => ih s (hp s)
  | write f k ih => exact ih hp
  | await q k ih => exact ⟨hp.1, fun a => ih a (hp.2 a)⟩

lemma ite {c : Prop} [Decidable c] {p q : Prog σ ε A α} (hp : p.Asks C) (hq : q.Asks C) :
    (if c then p else q).Asks C := by
  split
  · exact hp
  · exact hq

/-- Every question of a talk is one of these queries. -/
lemma talks {rely : σ → σ → Prop} {s t : σ} {l : List ((q : Q) × A q)} {r : Except ε α}
    {p : Prog σ ε A α} (hp : p.Asks C) (h : p.Talks rely s l r t) : ∀ x ∈ l, C x.1 := by
  induction p generalizing s l with
  | ret a =>
    obtain ⟨rfl, -⟩ := h
    exact fun x hx => by cases hx
  | panic e =>
    obtain ⟨rfl, -⟩ := h
    exact fun x hx => by cases hx
  | read k ih => exact ih s (hp s) h
  | write f k ih => exact ih hp h
  | await q k ih =>
    obtain ⟨u, -, a, l', rfl, h⟩ := h
    intro x hx
    rcases List.mem_cons.mp hx with rfl | hx
    · exact hp.1
    · exact ih a (hp.2 a) h x hx

end Asks

/-- In some run from `s`, finished or not, the program asks `q` and hears `a` in the store `u`. -/
def Hears (rely : σ → σ → Prop) (answer : (q : Q) → A q → σ → Prop) :
    Prog σ ε A α → σ → (q : Q) → A q → σ → Prop
  | .ret _, _, _, _, _ => False
  | .panic _, _, _, _, _ => False
  | .read k, s, q, a, u => (k s).Hears rely answer s q a u
  | .write f k, s, q, a, u => k.Hears rely answer (f s) q a u
  | .await p k, s, q, a, u => ∃ t, rely s t ∧ ∃ b, answer p b t ∧
      ((⟨p, b⟩ : (q : Q) × A q) = ⟨q, a⟩ ∧ u = t ∨ (k b).Hears rely answer t q a u)

section
variable {rely : σ → σ → Prop} {answer : (q : Q) → A q → σ → Prop} {s u : σ} {q : Q} {a : A q}

/-- A sequence hears an answer in its first part, or in the second when the first is over. -/
lemma hears_bind {p : Prog σ ε A α} {g : α → Prog σ ε A β} :
    (p >>= g).Hears rely answer s q a u ↔ p.Hears rely answer s q a u ∨
      ∃ b t, p.Runs rely answer s (.ok b) t ∧ (g b).Hears rely answer t q a u := by
  show (p.bind g).Hears rely answer s q a u ↔ _
  induction p generalizing s with
  | ret b =>
    constructor
    · exact fun h => .inr ⟨b, s, ⟨rfl, rfl⟩, h⟩
    · rintro (h | ⟨c, t, ⟨hc, rfl⟩, h⟩)
      · exact h.elim
      · cases hc
        exact h
  | panic e =>
    constructor
    · exact False.elim
    · rintro (h | ⟨c, t, ⟨hc, -⟩, -⟩)
      · exact h
      · cases hc
  | read k ih => exact ih s
  | write f k ih => exact ih
  | await p k ih =>
    constructor
    · rintro ⟨t, ht, b, hb, h | h⟩
      · exact .inl ⟨t, ht, b, hb, .inl h⟩
      · rcases (ih b).mp h with h | ⟨c, x, hp, hg⟩
        · exact .inl ⟨t, ht, b, hb, .inr h⟩
        · exact .inr ⟨c, x, ⟨t, ht, b, hb, hp⟩, hg⟩
    · rintro (⟨t, ht, b, hb, h | h⟩ | ⟨c, x, ⟨t, ht, b, hb, hp⟩, hg⟩)
      · exact ⟨t, ht, b, hb, .inl h⟩
      · exact ⟨t, ht, b, hb, .inr ((ih b).mpr (.inl h))⟩
      · exact ⟨t, ht, b, hb, .inr ((ih b).mpr (.inr ⟨c, x, hp, hg⟩))⟩

lemma hears_ask_bind {p : Q} {g : A p → Prog σ ε A β} :
    (ask p >>= g).Hears rely answer s q a u ↔ ∃ t, rely s t ∧ ∃ b, answer p b t ∧
      ((⟨p, b⟩ : (q : Q) × A q) = ⟨q, a⟩ ∧ u = t ∨ (g b).Hears rely answer t q a u) := Iff.rfl

/-- What is heard was asked. -/
lemma Asks.hears {C : Q → Prop} {p : Prog σ ε A α} (hp : p.Asks C)
    (h : p.Hears rely answer s q a u) : C q := by
  induction p generalizing s with
  | ret b => exact h.elim
  | panic e => exact h.elim
  | read k ih => exact ih s (hp s) h
  | write f k ih => exact ih hp h
  | await p k ih =>
    obtain ⟨t, -, b, -, ⟨heq, -⟩ | h⟩ := h
    · cases heq
      exact hp.1
    · exact ih b (hp.2 b) h

end

end Prog

namespace Protocol

variable {ι σ ε Q : Type} {A : Q → Type} {α : Type}

/-- The same rules with other conditions on the queries. -/
@[simps]
def issuing (P : Protocol ι σ ε A) (I : ι → Q → σ → Prop) : Protocol ι σ ε A :=
  { P with issue := I }

variable {P : Protocol ι σ ε A} {I : ι → Q → σ → Prop} {i : ι} {C : Q → Prop}

/-- Queries that are always allowed need no care. -/
lemma wp_issuing (hC : ∀ q s, C q → I i q s) {p : Prog σ ε A α} (hp : p.Asks C)
    {R : α → σ → Prop} {s : σ} (h : p.wp P i R s) : p.wp (P.issuing I) i R s := by
  induction p generalizing s with
  | ret a => exact h
  | panic e => exact h
  | read k ih => exact ih s (hp s) h
  | write f k ih => exact ⟨h.1, h.2.1, ih hp h.2.2⟩
  | await q k ih => exact ⟨h.1, hC q s hp.1, fun t ht hI a ha => ih a (hp.2 a) (h.2.2 t ht hI a ha)⟩

variable [DecidableEq ι] {S : System ι σ ε A}

/-- What a query needs holds as long as its role waits, when the others leave it alone. -/
theorem Covers.pending (hP : P.Covers S)
    (hstay : ∀ i q s t, P.issue i q s → P.rely i s t → P.inv t → P.issue i q t)
    {c : Config ι σ ε A} (hc : S.Reachable c) {i : ι} {q : Q} {k : A q → Prog σ ε A Unit}
    (hq : c.thread i = .await q k) : P.issue i q c.store := by
  have hboot : ∀ s (th : ι → Prog σ ε A Unit), (S.init s ∨ ∃ u, P.durable u ∧ S.restart u s) →
      P.inv s → (∀ i, S.boot i (th i)) → th i = .await q k → P.issue i q s := by
    intro s th hs hI hth he
    have hw := hP.boot i (th i) s s (hth i) hs (hP.rely_refl i s) hI
    rw [he] at hw
    exact hw.2.1
  induction hc with
  | init h hth => exact hboot _ _ (.inl h) (hP.init _ h) hth hq
  | @step c c' l hc h ih =>
    have hholds := hP.reachable hc
    cases h with
    | @run j p halive hp =>
      obtain ⟨hI, hG, -, hissue, -, -⟩ := P.burst_spec (hP.wp_of_enabled hholds halive hp)
      by_cases hj : i = j
      · subst hj
        exact hissue q k (by simpa [Config.run] using hq)
      · have hrel := hP.rely_of_guars (Ne.symm hj) hG
        refine hstay i q _ _ (ih ?_) hrel hI
        simpa [Config.run, Function.update_of_ne hj] using hq
    | env h =>
      obtain ⟨hI, hrel⟩ := hP.env _ _ h hholds.inv
      exact hstay i q _ _ (ih hq) (hrel i) hI
    | restart h hth =>
      have hd := hP.durable _ hholds.inv
      exact hboot _ _ (.inr ⟨_, hd, h⟩) (hP.restart _ _ hd h) hth hq
    | crash halive hp ht h hth =>
      have hd := ((P.burst_spec (hP.wp_of_enabled hholds halive hp)).2.2.2.2.2 _ ht).1
      exact hboot _ _ (.inr ⟨_, hd, h⟩) (hP.restart _ _ hd h) hth hq

end Protocol

end Coop
