import VeaValidator.Coop.Prog
import Mathlib.Data.List.Basic

/-!
What is asked and answered in a run.

A talk is a run with the list of its questions and their answers. Everything else that happens at
the suspension points is free, so what holds of every talk holds in every surrounding.
-/

namespace Coop

namespace Prog

variable {σ ε Q : Type} {A : Q → Type} {α β : Type}

/-- The run of a program from `s` to its end, with the questions that are asked and their
answers. -/
def Talks (rely : σ → σ → Prop) :
    Prog σ ε A α → σ → List ((q : Q) × A q) → Except ε α → σ → Prop
  | .ret a, s, l, r, t => l = [] ∧ r = .ok a ∧ t = s
  | .panic e, s, l, r, t => l = [] ∧ r = .error e ∧ t = s
  | .read k, s, l, r, t => (k s).Talks rely s l r t
  | .write f k, s, l, r, t => k.Talks rely (f s) l r t
  | .await q k, s, l, r, t =>
    ∃ u, rely s u ∧ ∃ a l', l = ⟨q, a⟩ :: l' ∧ (k a).Talks rely u l' r t

variable {rely : σ → σ → Prop} {s t : σ} {l : List ((q : Q) × A q)}

@[simp] lemma talks_pure {a : α} {r : Except ε α} :
    (pure a : Prog σ ε A α).Talks rely s l r t ↔ l = [] ∧ r = .ok a ∧ t = s := Iff.rfl

@[simp] lemma talks_panic {e : ε} {r : Except ε α} :
    (.panic e : Prog σ ε A α).Talks rely s l r t ↔ l = [] ∧ r = .error e ∧ t = s := Iff.rfl

/-- The talk of a sequence is one of its first part that goes on or ends there. -/
lemma talks_bind {p : Prog σ ε A α} {g : α → Prog σ ε A β} {r : Except ε β} :
    (p >>= g).Talks rely s l r t ↔
      (∃ a u l₁ l₂, l = l₁ ++ l₂ ∧ p.Talks rely s l₁ (.ok a) u ∧ (g a).Talks rely u l₂ r t) ∨
        ∃ e, r = .error e ∧ p.Talks rely s l (.error e) t := by
  show (p.bind g).Talks rely s l r t ↔ _
  induction p generalizing s l with
  | ret a =>
    constructor
    · exact fun h => .inl ⟨a, s, [], l, rfl, ⟨rfl, rfl, rfl⟩, h⟩
    · rintro (⟨b, u, l₁, l₂, rfl, ⟨rfl, hb, rfl⟩, h⟩ | ⟨e, -, -, he, -⟩)
      · cases hb
        exact h
      · cases he
  | panic e =>
    constructor
    · rintro ⟨rfl, rfl, rfl⟩
      exact .inr ⟨e, rfl, rfl, rfl, rfl⟩
    · rintro (⟨b, u, l₁, l₂, -, ⟨-, hb, -⟩, -⟩ | ⟨e', rfl, rfl, he, rfl⟩)
      · cases hb
      · cases he
        exact ⟨rfl, rfl, rfl⟩
  | read k ih => exact ih s
  | write f k ih => exact ih
  | await q k ih =>
    constructor
    · rintro ⟨u, hu, a, l', rfl, h⟩
      rcases (ih a).mp h with ⟨b, v, l₁, l₂, rfl, hp, hg⟩ | ⟨e, rfl, hp⟩
      · exact .inl ⟨b, v, ⟨q, a⟩ :: l₁, l₂, rfl, ⟨u, hu, a, l₁, rfl, hp⟩, hg⟩
      · exact .inr ⟨e, rfl, u, hu, a, l', rfl, hp⟩
    · rintro (⟨b, v, l₁, l₂, rfl, ⟨u, hu, a, l', rfl, hp⟩, hg⟩ | ⟨e, rfl, u, hu, a, l', rfl, hp⟩)
      · exact ⟨u, hu, a, l' ++ l₂, rfl, (ih a).mpr (.inl ⟨b, v, l', l₂, rfl, hp, hg⟩)⟩
      · exact ⟨u, hu, a, l', rfl, (ih a).mpr (.inr ⟨e, rfl, hp⟩)⟩

/-- The questions of the run with the answers of `o`, and these answers. -/
def exchanges (o : (q : Q) → A q) : Prog σ ε A α → σ → List ((q : Q) × A q)
  | .ret _, _ => []
  | .panic _, _ => []
  | .read k, s => (k s).exchanges o s
  | .write f k, s => k.exchanges o (f s)
  | .await q k, s => ⟨q, o q⟩ :: (k (o q)).exchanges o s

/-- The run with the answers of `o` is a talk. -/
lemma talks_exchanges (hrely : ∀ s, rely s s) (o : (q : Q) → A q) (p : Prog σ ε A α) (s : σ) :
    p.Talks rely s (p.exchanges o s) (p.eval o s).1 (p.eval o s).2 := by
  induction p generalizing s with
  | ret a => exact ⟨rfl, rfl, rfl⟩
  | panic e => exact ⟨rfl, rfl, rfl⟩
  | read k ih => exact ih s s
  | write f k ih => exact ih (f s)
  | await q k ih => exact ⟨s, hrely s, o q, _, rfl, ih (o q) s⟩

lemma of_mem_exchanges {o : (q : Q) → A q} {p : Prog σ ε A α} {x : (q : Q) × A q}
    (hx : x ∈ p.exchanges o s) : x.2 = o x.1 := by
  induction p generalizing s with
  | ret a => cases hx
  | panic e => cases hx
  | read k ih => exact ih s hx
  | write f k ih => exact ih hx
  | await q k ih =>
    rcases List.mem_cons.mp hx with rfl | hx
    · rfl
    · exact ih (o q) hx

lemma talks_eval (hrely : ∀ s, rely s s) (o : (q : Q) → A q) (p : Prog σ ε A α) (s : σ) :
    ∃ l, (∀ x ∈ l, x.2 = o x.1) ∧ p.Talks rely s l (p.eval o s).1 (p.eval o s).2 :=
  ⟨_, fun _ hx => of_mem_exchanges hx, talks_exchanges hrely o p s⟩

/-- A talk is a run. -/
lemma Talks.runs {p : Prog σ ε A α} {r : Except ε α} (h : p.Talks rely s l r t) :
    p.Runs rely (fun _ _ _ => True) s r t := by
  induction p generalizing s l with
  | ret a => exact h.2
  | panic e => exact h.2
  | read k ih => exact ih s h
  | write f k ih => exact ih h
  | await q k ih =>
    obtain ⟨u, hu, a, l', -, h⟩ := h
    exact ⟨u, hu, a, trivial, ih a h⟩

/-- A question of a sequence is one of its second part, or of its first part, which then goes on
or ends the run. -/
lemma talks_bind_cons {p : Prog σ ε A α} {g : α → Prog σ ε A β} {x : (q : Q) × A q}
    {l' : List ((q : Q) × A q)} {r : Except ε β} (h : (p >>= g).Talks rely s (l ++ x :: l') r t) :
    (∃ b u l₁ l₂, l = l₁ ++ l₂ ∧ p.Talks rely s l₁ (.ok b) u ∧
        (g b).Talks rely u (l₂ ++ x :: l') r t) ∨
      (∃ b u l₁ l₂, l' = l₁ ++ l₂ ∧ p.Talks rely s (l ++ x :: l₁) (.ok b) u ∧
        (g b).Talks rely u l₂ r t) ∨
      ∃ e, r = .error e ∧ p.Talks rely s (l ++ x :: l') (.error e) t := by
  rcases talks_bind.mp h with ⟨b, u, l₁, l₂, hl, hfirst, hrest⟩ | ⟨e, rfl, hfirst⟩
  · rcases List.append_eq_append_iff.mp hl with ⟨m, rfl, hm⟩ | ⟨m, rfl, rfl⟩
    · cases m with
      | nil =>
        rw [List.nil_append] at hm
        subst hm
        rw [List.append_nil] at hfirst
        exact .inl ⟨b, u, l, [], (List.append_nil l).symm, hfirst, hrest⟩
      | cons y m =>
        obtain ⟨rfl, rfl⟩ := List.cons.inj hm
        exact .inr (.inl ⟨b, u, m, l₂, rfl, hfirst, hrest⟩)
    · exact .inl ⟨b, u, l₁, m, rfl, hfirst, hrest⟩
  · exact .inr (.inr ⟨e, rfl, hfirst⟩)

/-! ### Talks with a bad answer -/

/-- The panic a run has ended with. -/
def error? : Except ε α → Option ε
  | .ok _ => none
  | .error e => some e

/-- Of a bad answer in a talk of the program, `K` says what came before it, what follows, and the
panic at the end, if there is one. -/
def Brittle (bad : (q : Q) → A q → Prop)
    (K : List ((q : Q) × A q) → (q : Q) × A q → List ((q : Q) × A q) → Option ε → Prop)
    (p : Prog σ ε A α) : Prop :=
  ∀ rely s l q a l' r t, p.Talks rely s (l ++ ⟨q, a⟩ :: l') r t → bad q a →
    K l ⟨q, a⟩ l' (error? r)

namespace Brittle

variable {bad : (q : Q) → A q → Prop}
  {K : List ((q : Q) × A q) → (q : Q) × A q → List ((q : Q) × A q) → Option ε → Prop}

lemma pure {a : α} : Brittle bad K (Pure.pure a : Prog σ ε A α) := fun _ _ _ _ _ _ _ _ h =>
  absurd h.1 (by simp)

lemma gets {f : σ → α} : Brittle bad K (gets f : Prog σ ε A α) := fun _ _ _ _ _ _ _ _ h =>
  absurd h.1 (by simp)

lemma modify {f : σ → σ} : Brittle bad K (modify f : Prog σ ε A Unit) := fun _ _ _ _ _ _ _ _ h =>
  absurd h.1 (by simp)

/-- What `K` says has to survive earlier questions, and later ones where the run goes on. -/
lemma bind (hbefore : ∀ l₀ l x l' e, K l x l' e → K (l₀ ++ l) x l' e)
    (hafter : ∀ l x l' l₁ e, K l x l' none → K l x (l' ++ l₁) e) {p : Prog σ ε A α}
    {g : α → Prog σ ε A β} (hp : Brittle bad K p) (hg : ∀ a, Brittle bad K (g a)) :
    Brittle bad K (p >>= g) := by
  intro rely s l q a l' r t h hbad
  rcases talks_bind_cons h with ⟨b, u, l₁, l₂, rfl, -, hrest⟩ | ⟨b, u, l₁, l₂, rfl, hfirst, -⟩ |
    ⟨e, rfl, hfirst⟩
  · exact hbefore _ _ _ _ _ (hg b _ _ _ _ _ _ _ _ hrest hbad)
  · exact hafter _ _ _ _ _ (hp _ _ _ _ _ _ _ _ hfirst hbad)
  · exact hp _ _ _ _ _ _ _ _ hfirst hbad

lemma ite {c : Prop} [Decidable c] {p q : Prog σ ε A α} (hp : Brittle bad K p)
    (hq : Brittle bad K q) : Brittle bad K (if c then p else q) := by
  split
  · exact hp
  · exact hq

end Brittle

/-! ### Talks with good answers -/

/-- As long as all answers are good, the program returns what `R` says, or panics as `E` says. -/
def Ends (good : (q : Q) → A q → Prop) (E : List ((q : Q) × A q) → ε → Prop) (R : α → Prop)
    (p : Prog σ ε A α) : Prop :=
  ∀ rely s l r t, p.Talks rely s l r t → (∀ x ∈ l, good x.1 x.2) →
    (∀ a, r = .ok a → R a) ∧ ∀ e, r = .error e → E l e

/-- The result of a program that can fail. -/
def Returns {δ : Type} (R : α → Prop) (T : δ → Prop) : Except δ α → Prop
  | .ok a => R a
  | .error d => T d

namespace Ends

variable {good : (q : Q) → A q → Prop} {E : List ((q : Q) × A q) → ε → Prop} {R : α → Prop}

lemma pure {a : α} (h : R a) : Ends good E R (Pure.pure a : Prog σ ε A α) := by
  rintro rely s l r t ⟨-, rfl, -⟩ -
  exact ⟨fun b hb => by cases hb; exact h, nofun⟩

lemma gets {f : σ → α} (h : ∀ s, R (f s)) : Ends good E R (gets f : Prog σ ε A α) := by
  rintro rely s l r t ⟨-, rfl, -⟩ -
  exact ⟨fun b hb => by cases hb; exact h s, nofun⟩

lemma modify {f : σ → σ} {R : Unit → Prop} (h : R ()) :
    Ends good E R (modify f : Prog σ ε A Unit) := by
  rintro rely s l r t ⟨-, rfl, -⟩ -
  exact ⟨fun b hb => by cases hb; exact h, nofun⟩

lemma ask {q : Q} {R : A q → Prop} (h : ∀ a, good q a → R a) :
    Ends good E R (ask q : Prog σ ε A (A q)) := by
  rintro rely s l r t ⟨u, -, a, l', rfl, rfl, rfl, -⟩ hl
  exact ⟨fun b hb => by cases hb; exact h a (hl _ List.mem_cons_self), nofun⟩

lemma mono {R' : α → Prop} {p : Prog σ ε A α} (hp : Ends good E R p) (h : ∀ a, R a → R' a) :
    Ends good E R' p := fun rely s l r t htalk hl =>
  ⟨fun a ha => h a ((hp rely s l r t htalk hl).1 a ha), (hp rely s l r t htalk hl).2⟩

lemma bind (hE : ∀ l₀ l e, E l e → E (l₀ ++ l) e) {R' : β → Prop} {p : Prog σ ε A α}
    {g : α → Prog σ ε A β} (hp : Ends good E R p) (hg : ∀ a, R a → Ends good E R' (g a)) :
    Ends good E R' (p >>= g) := by
  intro rely s l r t h hl
  rcases talks_bind.mp h with ⟨a, u, l₁, l₂, rfl, hfirst, hrest⟩ | ⟨e, rfl, hfirst⟩
  · have ha : R a := (hp _ _ _ _ _ hfirst fun x hx => hl x (List.mem_append_left _ hx)).1 a rfl
    obtain ⟨hok, herror⟩ := hg a ha _ _ _ _ _ hrest fun x hx => hl x (List.mem_append_right _ hx)
    exact ⟨hok, fun e he => hE _ _ e (herror e he)⟩
  · refine ⟨nofun, fun e' he => ?_⟩
    cases he
    exact (hp _ _ _ _ _ hfirst hl).2 e rfl

lemma ite {c : Prop} [Decidable c] {p q : Prog σ ε A α} (hp : c → Ends good E R p)
    (hq : ¬c → Ends good E R q) : Ends good E R (if c then p else q) := by
  split
  · next h => exact hp h
  · next h => exact hq h

section
variable {δ : Type} {T : δ → Prop}

lemma run_pure {a : α} (h : R a) :
    Ends good E (Returns R T) (Pure.pure a : ExceptT δ (Prog σ ε A) α).run :=
  pure h

lemma run_throw {d : δ} (h : T d) :
    Ends good E (Returns R T) (throw d : ExceptT δ (Prog σ ε A) α).run :=
  pure h

lemma run_ite {c : Prop} [Decidable c] {x y : ExceptT δ (Prog σ ε A) α}
    (hx : c → Ends good E (Returns R T) x.run) (hy : ¬c → Ends good E (Returns R T) y.run) :
    Ends good E (Returns R T) (if c then x else y).run := by
  split
  · next h => exact hx h
  · next h => exact hy h

lemma run_lift {p : Prog σ ε A α} (hp : Ends good E R p)
    (hE : ∀ l₀ l e, E l e → E (l₀ ++ l) e) :
    Ends good E (Returns R T) (ExceptT.lift p : ExceptT δ (Prog σ ε A) α).run := by
  rw [ExceptT.run_lift, map_eq_pure_bind]
  exact bind hE hp fun a ha => pure ha

lemma run_bind (hE : ∀ l₀ l e, E l e → E (l₀ ++ l) e) {R' : β → Prop}
    {x : ExceptT δ (Prog σ ε A) α} {g : α → ExceptT δ (Prog σ ε A) β}
    (hx : Ends good E (Returns R T) x.run)
    (hg : ∀ a, R a → Ends good E (Returns R' T) (g a).run) :
    Ends good E (Returns R' T) (x >>= g).run := by
  rw [ExceptT.run_bind]
  refine bind hE hx fun r hr => ?_
  cases r with
  | ok a => exact hg a hr
  | error d => exact pure hr

end

end Ends

end Prog

end Coop
