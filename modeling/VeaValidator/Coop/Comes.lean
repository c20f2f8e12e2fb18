import VeaValidator.Coop.Logic
import VeaValidator.Coop.Talk

/-!
Where a program comes to ask.

A run that is still going on is known by the query it has come to, the store it asks in, and the
questions and answers until then. Some programs ask certain things once at most, or never.
-/

namespace Coop

namespace Prog

variable {ι σ ε Q : Type} {A : Q → Type} {α β δ : Type}

/-- From `s` on, after the exchanges `l`, the program asks `q` in the store `u`. -/
def Comes (rely : σ → σ → Prop) :
    Prog σ ε A α → σ → List ((q : Q) × A q) → Q → σ → Prop
  | .ret _, _, _, _, _ => False
  | .panic _, _, _, _, _ => False
  | .read k, s, l, q, u => (k s).Comes rely s l q u
  | .write f k, s, l, q, u => k.Comes rely (f s) l q u
  | .await p k, s, l, q, u => (l = [] ∧ q = p ∧ u = s) ∨
      ∃ t, rely s t ∧ ∃ a l', l = ⟨p, a⟩ :: l' ∧ (k a).Comes rely t l' q u

variable {rely : σ → σ → Prop} {s t u : σ} {l : List ((q : Q) × A q)} {q : Q} {C : Q → Prop}

@[simp] lemma not_comes_pure {a : α} : ¬(pure a : Prog σ ε A α).Comes rely s l q u := id

@[simp] lemma not_comes_panic {e : ε} : ¬(.panic e : Prog σ ε A α).Comes rely s l q u := id

@[simp] lemma not_comes_gets {f : σ → α} : ¬(gets f : Prog σ ε A α).Comes rely s l q u := id

@[simp] lemma not_comes_modify {f : σ → σ} : ¬(modify f : Prog σ ε A Unit).Comes rely s l q u := id

@[simp] lemma comes_ask {p : Q} :
    (ask p : Prog σ ε A (A p)).Comes rely s l q u ↔ l = [] ∧ q = p ∧ u = s := by
  constructor
  · rintro (h | ⟨t, -, a, l', -, h⟩)
    · exact h
    · exact h.elim
  · exact .inl

lemma comes_gets_bind {f : σ → α} {g : α → Prog σ ε A β} :
    (gets f >>= g).Comes rely s l q u ↔ (g (f s)).Comes rely s l q u := Iff.rfl

lemma comes_ask_bind {p : Q} {g : A p → Prog σ ε A β} :
    (ask p >>= g).Comes rely s l q u ↔ (l = [] ∧ q = p ∧ u = s) ∨
      ∃ t, rely s t ∧ ∃ a l', l = ⟨p, a⟩ :: l' ∧ (g a).Comes rely t l' q u := Iff.rfl

/-- A sequence asks in its first part, or in the second when the first is over. -/
lemma comes_bind {p : Prog σ ε A α} {g : α → Prog σ ε A β} :
    (p >>= g).Comes rely s l q u ↔ p.Comes rely s l q u ∨
      ∃ a v l₁ l₂, l = l₁ ++ l₂ ∧ p.Talks rely s l₁ (.ok a) v ∧ (g a).Comes rely v l₂ q u := by
  show (p.bind g).Comes rely s l q u ↔ _
  induction p generalizing s l with
  | ret a =>
    constructor
    · exact fun h => .inr ⟨a, s, [], l, rfl, ⟨rfl, rfl, rfl⟩, h⟩
    · rintro (h | ⟨b, v, l₁, l₂, rfl, ⟨rfl, hb, rfl⟩, h⟩)
      · exact h.elim
      · cases hb
        exact h
  | panic e =>
    constructor
    · exact False.elim
    · rintro (h | ⟨b, v, l₁, l₂, -, ⟨-, hb, -⟩, -⟩)
      · exact h
      · cases hb
  | read k ih => exact ih s
  | write f k ih => exact ih
  | await p k ih =>
    constructor
    · rintro (h | ⟨t, ht, a, l', rfl, h⟩)
      · exact .inl (.inl h)
      · rcases (ih a).mp h with h | ⟨b, v, l₁, l₂, rfl, htalk, h⟩
        · exact .inl (.inr ⟨t, ht, a, l', rfl, h⟩)
        · exact .inr ⟨b, v, ⟨p, a⟩ :: l₁, l₂, rfl, ⟨t, ht, a, l₁, rfl, htalk⟩, h⟩
    · rintro ((h | ⟨t, ht, a, l', rfl, h⟩) | ⟨b, v, l₁, l₂, rfl, ⟨t, ht, a, l', rfl, htalk⟩, h⟩)
      · exact .inl h
      · exact .inr ⟨t, ht, a, l', rfl, (ih a).mpr (.inl h)⟩
      · exact .inr ⟨t, ht, a, l' ++ l₂, rfl, (ih a).mpr (.inr ⟨b, v, l', l₂, rfl, htalk, h⟩)⟩

/-- A loop asks in one of its turns, when the turns before it are over. -/
lemma comes_forM {f : β → Prog σ ε A PUnit} {bs : List β} (h : (forM bs f).Comes rely s l q u) :
    ∃ done b rest v l₁ l₂, bs = done ++ b :: rest ∧ l = l₁ ++ l₂ ∧
      (forM done f).Talks rely s l₁ (.ok ⟨⟩) v ∧ (f b).Comes rely v l₂ q u := by
  induction bs generalizing s l with
  | nil => exact h.elim
  | cons b bs ih =>
    rw [List.forM_cons] at h
    rcases comes_bind.mp h with h | ⟨⟨⟩, v, l₁, l₂, rfl, htalk, h⟩
    · exact ⟨[], b, bs, s, [], l, rfl, rfl, ⟨rfl, rfl, rfl⟩, h⟩
    · obtain ⟨done, c, rest, w, m₁, m₂, rfl, rfl, hdone, hc⟩ := ih h
      refine ⟨b :: done, c, rest, w, l₁ ++ m₁, m₂, rfl, (List.append_assoc _ _ _).symm, ?_, hc⟩
      rw [List.forM_cons]
      exact talks_bind.mpr (.inl ⟨⟨⟩, v, l₁, m₁, rfl, htalk, hdone⟩)

/-- Every question of a talk was asked in its turn. -/
lemma Talks.comes {p : Prog σ ε A α} {a : A q} {l₁ l₂ : List ((q : Q) × A q)} {r : Except ε α}
    (h : p.Talks rely s (l₁ ++ ⟨q, a⟩ :: l₂) r t) : ∃ u, p.Comes rely s l₁ q u := by
  induction p generalizing s l₁ with
  | ret b => exact absurd h.1 (by simp)
  | panic e => exact absurd h.1 (by simp)
  | read k ih => exact ih s h
  | write f k ih => exact ih h
  | await p k ih =>
    obtain ⟨v, hv, b, l', hl, h⟩ := h
    cases l₁ with
    | nil =>
      obtain ⟨hx, -⟩ := List.cons.inj hl
      cases hx
      exact ⟨s, .inl ⟨rfl, rfl, rfl⟩⟩
    | cons x l₁ =>
      obtain ⟨rfl, rfl⟩ := List.cons.inj hl
      obtain ⟨u, hu⟩ := ih b h
      exact ⟨u, .inr ⟨v, hv, b, l₁, rfl, hu⟩⟩

/-- A weakest precondition speaks of every query, if the answers were right. -/
lemma wp_comes {P : Protocol ι σ ε A} {i : ι} {p : Prog σ ε A α} {R : α → σ → Prop}
    (h : p.wp P i R s) (hrely : ∀ s t, rely s t → P.rely i s t ∧ P.inv t)
    (hanswer : ∀ x ∈ l, ∀ t, P.answer i x.1 x.2 t) (hc : p.Comes rely s l q u) :
    P.issue i q u := by
  induction p generalizing s l with
  | ret a => exact hc.elim
  | panic e => exact hc.elim
  | read k ih => exact ih s h hanswer hc
  | write f k ih => exact ih h.2.2 hanswer hc
  | await p k ih =>
    rcases hc with ⟨-, rfl, rfl⟩ | ⟨t, ht, a, l', rfl, hc⟩
    · exact h.2.1
    · obtain ⟨hst, hI⟩ := hrely s t ht
      exact ih a (h.2.2 t hst hI a (hanswer ⟨p, a⟩ List.mem_cons_self t))
        (fun x hx => hanswer x (List.mem_cons_of_mem _ hx)) hc

/-- And of what the program returns. -/
lemma wp_talks {P : Protocol ι σ ε A} {i : ι} {p : Prog σ ε A α} {R : α → σ → Prop} {a : α}
    (h : p.wp P i R s) (hrely : ∀ s t, rely s t → P.rely i s t ∧ P.inv t)
    (hanswer : ∀ x ∈ l, ∀ t, P.answer i x.1 x.2 t) (ht : p.Talks rely s l (.ok a) t) : R a t := by
  induction p generalizing s l with
  | ret b =>
    obtain ⟨-, hb, rfl⟩ := ht
    cases hb
    exact h
  | panic e =>
    obtain ⟨-, hb, -⟩ := ht
    cases hb
  | read k ih => exact ih s h hanswer ht
  | write f k ih => exact ih h.2.2 hanswer ht
  | await p k ih =>
    obtain ⟨u, hu, b, l', rfl, ht⟩ := ht
    obtain ⟨hsu, hI⟩ := hrely s u hu
    exact ih b (h.2.2 u hsu hI b (hanswer ⟨p, b⟩ List.mem_cons_self u))
      (fun x hx => hanswer x (List.mem_cons_of_mem _ hx)) ht

/-! ### Programs that ask something once, or never -/

/-- The program never asks a query in `C`. -/
def Never (C : Q → Prop) (p : Prog σ ε A α) : Prop :=
  ∀ rely s l q u, p.Comes rely s l q u → ¬C q

/-- The program asks a query in `C` once at most. -/
def Once (C : Q → Prop) (p : Prog σ ε A α) : Prop :=
  ∀ rely s l q u, p.Comes rely s l q u → C q → ∀ x ∈ l, ¬C x.1

namespace Never

lemma pure {a : α} : Never C (Pure.pure a : Prog σ ε A α) := fun _ _ _ _ _ h => h.elim

lemma panic {e : ε} : Never C (.panic e : Prog σ ε A α) := fun _ _ _ _ _ h => h.elim

lemma gets {f : σ → α} : Never C (gets f : Prog σ ε A α) := fun _ _ _ _ _ h => h.elim

lemma modify {f : σ → σ} : Never C (modify f : Prog σ ε A Unit) := fun _ _ _ _ _ h => h.elim

lemma ask (h : ¬C q) : Never C (ask q : Prog σ ε A (A q)) := by
  intro rely s l q' u hc
  obtain ⟨-, rfl, -⟩ := comes_ask.mp hc
  exact h

lemma talks {p : Prog σ ε A α} (hp : Never C p) {r : Except ε α} (h : p.Talks rely s l r t) :
    ∀ x ∈ l, ¬C x.1 := by
  intro x hx
  obtain ⟨l₁, l₂, rfl⟩ := List.append_of_mem hx
  obtain ⟨u, hu⟩ := h.comes
  exact hp _ _ _ _ _ hu

lemma bind {p : Prog σ ε A α} {g : α → Prog σ ε A β} (hp : Never C p)
    (hg : ∀ a, Never C (g a)) : Never C (p >>= g) := by
  intro rely s l q u hc
  rcases comes_bind.mp hc with hc | ⟨a, v, l₁, l₂, -, -, hc⟩
  · exact hp _ _ _ _ _ hc
  · exact hg a _ _ _ _ _ hc

lemma ite {c : Prop} [Decidable c] {p q : Prog σ ε A α} (hp : Never C p) (hq : Never C q) :
    Never C (if c then p else q) := by
  split
  · exact hp
  · exact hq

/-- What a program asks in a world that does whatever it likes, is all it asks. -/
lemma of_loose {G : σ → σ → Prop} {S : Q → σ → Prop} {F : ε → σ → Prop} {p : Prog σ ε A α}
    (h : Keeps (.loose G S F) () (fun _ => True) p) (hS : ∀ q s, S q s → ¬C q) : Never C p := by
  intro rely s l q u hc
  have hw := h s trivial trivial
  exact hS q u (wp_comes hw (fun _ _ _ => ⟨trivial, trivial⟩) (fun _ _ _ => trivial) hc)

lemma run_lift {p : Prog σ ε A α} (hp : Never C p) :
    Never C (ExceptT.lift p : ExceptT δ (Prog σ ε A) α).run := by
  rw [ExceptT.run_lift, map_eq_pure_bind]
  exact bind hp fun _ => pure

lemma run_bind {x : ExceptT δ (Prog σ ε A) α} {g : α → ExceptT δ (Prog σ ε A) β}
    (hx : Never C x.run) (hg : ∀ a, Never C (g a).run) : Never C (x >>= g).run := by
  rw [ExceptT.run_bind]
  refine bind hx fun r => ?_
  cases r with
  | ok a => exact hg a
  | error d => exact pure

lemma run_ite {c : Prop} [Decidable c] {x y : ExceptT δ (Prog σ ε A) α} (hx : Never C x.run)
    (hy : Never C y.run) : Never C (if c then x else y).run := by
  split
  · exact hx
  · exact hy

/-- A query of a sequence whose second part does not ask it is one of the first part. -/
lemma comes_first {p : Prog σ ε A α} {g : α → Prog σ ε A β} (hg : ∀ a, Never C (g a))
    (h : (p >>= g).Comes rely s l q u) (hq : C q) : p.Comes rely s l q u := by
  rcases comes_bind.mp h with h | ⟨a, v, l₁, l₂, -, -, h⟩
  · exact h
  · exact absurd hq (hg a _ _ _ _ _ h)

/-- The other way round. -/
lemma comes_rest {p : Prog σ ε A α} {g : α → Prog σ ε A β} (hp : Never C p)
    (h : (p >>= g).Comes rely s l q u) (hq : C q) :
    ∃ a v l₁ l₂, l = l₁ ++ l₂ ∧ p.Talks rely s l₁ (.ok a) v ∧ (g a).Comes rely v l₂ q u := by
  rcases comes_bind.mp h with h | h
  · exact absurd hq (hp _ _ _ _ _ h)
  · exact h

lemma run_comes_first {x : ExceptT δ (Prog σ ε A) α} {g : α → ExceptT δ (Prog σ ε A) β}
    (hg : ∀ a, Never C (g a).run) (h : (x >>= g).run.Comes rely s l q u) (hq : C q) :
    x.run.Comes rely s l q u := by
  rw [ExceptT.run_bind] at h
  refine comes_first (fun r => ?_) h hq
  cases r with
  | ok a => exact hg a
  | error d => exact pure

lemma run_comes_rest {x : ExceptT δ (Prog σ ε A) α} {g : α → ExceptT δ (Prog σ ε A) β}
    (hx : Never C x.run) (h : (x >>= g).run.Comes rely s l q u) (hq : C q) :
    ∃ a v l₁ l₂, l = l₁ ++ l₂ ∧ x.run.Talks rely s l₁ (.ok (.ok a)) v ∧
      (g a).run.Comes rely v l₂ q u := by
  rw [ExceptT.run_bind] at h
  obtain ⟨r, v, l₁, l₂, rfl, htalk, h⟩ := comes_rest hx h hq
  cases r with
  | ok a => exact ⟨a, v, l₁, l₂, rfl, htalk, h⟩
  | error d => exact h.elim

end Never

namespace Once

lemma of_never {p : Prog σ ε A α} (hp : Never C p) : Once C p :=
  fun _ _ _ _ _ hc hq => absurd hq (hp _ _ _ _ _ hc)

lemma ask : Once C (ask q : Prog σ ε A (A q)) := by
  intro rely s l q' u hc _ x hx
  obtain ⟨rfl, -, -⟩ := comes_ask.mp hc
  cases hx

/-- The query may come in the second part. -/
lemma later {p : Prog σ ε A α} {g : α → Prog σ ε A β} (hp : Never C p)
    (hg : ∀ a, Once C (g a)) : Once C (p >>= g) := by
  intro rely s l q u hc hq
  rcases comes_bind.mp hc with hc | ⟨a, v, l₁, l₂, rfl, htalk, hc⟩
  · exact absurd hq (hp _ _ _ _ _ hc)
  · intro x hx
    rcases List.mem_append.mp hx with hx | hx
    · exact hp.talks htalk x hx
    · exact hg a _ _ _ _ _ hc hq x hx

/-- The query may come in the first part. -/
lemma before {p : Prog σ ε A α} {g : α → Prog σ ε A β} (hp : Once C p)
    (hg : ∀ a, Never C (g a)) : Once C (p >>= g) := by
  intro rely s l q u hc hq
  rcases comes_bind.mp hc with hc | ⟨a, v, l₁, l₂, -, -, hc⟩
  · exact hp _ _ _ _ _ hc hq
  · exact absurd hq (hg a _ _ _ _ _ hc)

lemma ite {c : Prop} [Decidable c] {p q : Prog σ ε A α} (hp : Once C p) (hq : Once C q) :
    Once C (if c then p else q) := by
  split
  · exact hp
  · exact hq

lemma run_later {x : ExceptT δ (Prog σ ε A) α} {g : α → ExceptT δ (Prog σ ε A) β}
    (hx : Never C x.run) (hg : ∀ a, Once C (g a).run) : Once C (x >>= g).run := by
  rw [ExceptT.run_bind]
  refine later hx fun r => ?_
  cases r with
  | ok a => exact hg a
  | error d => exact of_never Never.pure

lemma run_before {x : ExceptT δ (Prog σ ε A) α} {g : α → ExceptT δ (Prog σ ε A) β}
    (hx : Once C x.run) (hg : ∀ a, Never C (g a).run) : Once C (x >>= g).run := by
  rw [ExceptT.run_bind]
  refine before hx fun r => ?_
  cases r with
  | ok a => exact hg a
  | error d => exact Never.pure

lemma run_lift {p : Prog σ ε A α} (hp : Once C p) :
    Once C (ExceptT.lift p : ExceptT δ (Prog σ ε A) α).run := by
  rw [ExceptT.run_lift, map_eq_pure_bind]
  exact before hp fun _ => Never.pure

lemma run_ite {c : Prop} [Decidable c] {x y : ExceptT δ (Prog σ ε A) α} (hx : Once C x.run)
    (hy : Once C y.run) : Once C (if c then x else y).run := by
  split
  · exact hx
  · exact hy

/-- A talk has one exchange about `C`, or none. -/
lemma split {p : Prog σ ε A α} (hp : Once C p) {r : Except ε α} (h : p.Talks rely s l r t) :
    (∀ x ∈ l, ¬C x.1) ∨ ∃ q a l₁ l₂ u, l = l₁ ++ ⟨q, a⟩ :: l₂ ∧ C q ∧ p.Comes rely s l₁ q u ∧
      (∀ x ∈ l₁, ¬C x.1) ∧ ∀ x ∈ l₂, ¬C x.1 := by
  by_cases hC : ∀ x ∈ l, ¬C x.1
  · exact .inl hC
  · push Not at hC
    obtain ⟨⟨q, a⟩, hx, hq⟩ := hC
    obtain ⟨l₁, l₂, rfl⟩ := List.append_of_mem hx
    obtain ⟨u, hu⟩ := h.comes
    refine .inr ⟨q, a, l₁, l₂, u, rfl, hq, hu, hp _ _ _ _ _ hu hq, fun y hy hCy => ?_⟩
    -- A second one would have the first among its exchanges.
    obtain ⟨m₁, m₂, rfl⟩ := List.append_of_mem hy
    have htalk : p.Talks rely s ((l₁ ++ ⟨q, a⟩ :: m₁) ++ y :: m₂) r t := by
      rw [List.append_assoc]
      exact h
    obtain ⟨v, hv⟩ := htalk.comes
    exact hp _ _ _ _ _ hv hCy ⟨q, a⟩ (by simp) hq

end Once

end Prog

end Coop
