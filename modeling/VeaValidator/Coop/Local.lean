import VeaValidator.Coop.Logic

/-!
Programs that see only a part of the store.

A view says which part. A program is local to a view when what it returns and what it does to
the view depend on the view alone, and silent when it leaves the view as it is. From a
sequence of such programs the silent ones can be left out.
-/

namespace Coop

namespace Prog

variable {σ ε Q β : Type} {A : Q → Type} {α γ : Type}

/-- What a weakest precondition says of the run with the answers of `o`. -/
lemma eval_of_wp {o : (q : Q) → A q} {p : Prog σ ε A α} {R : α → σ → Prop} {s : σ}
    (h : p.wp (.disturbed Eq (fun q a _ => a = o q) fun _ _ => True) () R s) {a : α}
    (ha : (p.eval o s).1 = .ok a) : R a (p.eval o s).2 :=
  (wp_runs_disturbed h (runs_eval (fun _ => rfl) (fun _ _ => rfl) p s)).1 a ha

/-- What the program returns and does to the view `V` depends on the view alone. -/
def Local (V : σ → β) (p : Prog σ ε A α) : Prop :=
  ∀ o s t, V s = V t → (p.eval o s).1 = (p.eval o t).1 ∧ V (p.eval o s).2 = V (p.eval o t).2

/-- The program leaves the view `V` alone when it does not panic. -/
def Silent (V : σ → β) (p : Prog σ ε A α) : Prop :=
  ∀ o s a, (p.eval o s).1 = .ok a → V (p.eval o s).2 = V s

variable {V : σ → β}

namespace Local

lemma pure {a : α} : Local V (Pure.pure a : Prog σ ε A α) := fun _ _ _ h => ⟨rfl, h⟩

lemma panic {e : ε} : Local V (.panic e : Prog σ ε A α) := fun _ _ _ h => ⟨rfl, h⟩

lemma ask {q : Q} : Local V (ask q : Prog σ ε A (A q)) := fun _ _ _ h => ⟨rfl, h⟩

lemma modify {f : σ → σ} (hf : ∀ s t, V s = V t → V (f s) = V (f t)) :
    Local V (modify f : Prog σ ε A Unit) := fun _ s t h => ⟨rfl, hf s t h⟩

lemma bind {p : Prog σ ε A α} {g : α → Prog σ ε A γ} (hp : Local V p) (hg : ∀ a, Local V (g a)) :
    Local V (p >>= g) := by
  intro o s t h
  obtain ⟨hr, hV⟩ := hp o s t h
  rw [eval_bind, eval_bind]
  generalize p.eval o s = x at hr hV
  generalize p.eval o t = y at hr hV
  obtain ⟨r, s'⟩ := x
  obtain ⟨r', t'⟩ := y
  obtain rfl : r = r' := hr
  cases r with
  | ok a => exact hg a o s' t' hV
  | error e => exact ⟨rfl, hV⟩

/-- Reading the store is local as far as the rest of the program sees only the view of it. -/
lemma gets_bind {f : σ → α} {g : α → Prog σ ε A γ} (hf : ∀ s t, V s = V t → g (f s) = g (f t))
    (hg : ∀ a, Local V (g a)) : Local V (gets f >>= g) := by
  intro o s t h
  show ((g (f s)).eval o s).1 = ((g (f t)).eval o t).1 ∧ _ = V ((g (f t)).eval o t).2
  rw [← hf s t h]
  exact hg (f s) o s t h

lemma gets {f : σ → α} (hf : ∀ s t, V s = V t → f s = f t) : Local V (Prog.gets f : Prog σ ε A α) :=
  fun _ s t h => ⟨congrArg Except.ok (hf s t h), h⟩

lemma ite {c : Prop} [Decidable c] {p q : Prog σ ε A α} (hp : Local V p) (hq : Local V q) :
    Local V (if c then p else q) := by
  split
  · exact hp
  · exact hq

end Local

/-! ### Sequences -/

section
variable {δ : Type} (answers : δ → (q : Q) → A q) (step : δ → Prog σ ε A Unit)

/-- The steps run one after the other, each with its own answers, up to the first panic. -/
def evals : List δ → σ → Except ε Unit × σ
  | [], s => (.ok (), s)
  | x :: l, s =>
    match (step x).eval (answers x) s with
    | (.ok _, t) => evals l t
    | (.error e, t) => (.error e, t)

variable {answers step}

/-- **Silent steps can be left out.** A sequence in which every step is local to a view or
silent in it does to the view what its `own` steps do without the others. -/
theorem evals_filter (own : δ → Bool) {l : List δ}
    (hown : ∀ x ∈ l, own x = true → Local V (step x))
    (hother : ∀ x ∈ l, own x = false → Silent V (step x)) {s t : σ} (h : V s = V t)
    (hok : (evals answers step l s).1 = .ok ()) :
    (evals answers step (l.filter own) t).1 = .ok () ∧
      V (evals answers step (l.filter own) t).2 = V (evals answers step l s).2 := by
  induction l generalizing s t with
  | nil => exact ⟨rfl, h.symm⟩
  | cons x l ih =>
    have ih' := @ih (fun x hx => hown x (List.mem_cons_of_mem _ hx))
      fun x hx => hother x (List.mem_cons_of_mem _ hx)
    rcases hs : (step x).eval (answers x) s with ⟨e | ⟨⟩, s'⟩
    · rw [evals, hs] at hok
      cases hok
    have hrun : evals answers step (x :: l) s = evals answers step l s' := by rw [evals, hs]
    rw [hrun] at hok ⊢
    by_cases hx : own x = true
    · obtain ⟨hr, hV⟩ := hown x List.mem_cons_self hx (answers x) s t h
      rcases ht : (step x).eval (answers x) t with ⟨r, t'⟩
      rw [hs, ht] at hr hV
      obtain rfl : Except.ok () = r := hr
      have hrun' : evals answers step (x :: l.filter own) t =
          evals answers step (l.filter own) t' := by rw [evals, ht]
      rw [List.filter_cons_of_pos hx, hrun']
      exact ih' hV hok
    · have hV := hother x List.mem_cons_self (Bool.not_eq_true _ ▸ hx) (answers x) s () (by rw [hs])
      rw [hs] at hV
      rw [List.filter_cons_of_neg hx]
      exact ih' (hV.trans h) hok

end

/-! ### Steps that do nothing -/

/-- The program returns and leaves the view alone, with the answers of `o`. -/
def Idle (V : σ → β) (o : (q : Q) → A q) (p : Prog σ ε A α) : Prop :=
  ∀ s, ∃ a, (p.eval o s).1 = .ok a ∧ V (p.eval o s).2 = V s

/-- `l'` is `l` without some of the elements in `p`. -/
inductive Without {δ : Type} (p : δ → Prop) : List δ → List δ → Prop
  | nil : Without p [] []
  | keep (x : δ) {l l' : List δ} (h : Without p l l') : Without p (x :: l) (x :: l')
  | drop {x : δ} {l l' : List δ} (hx : p x) (h : Without p l l') : Without p (x :: l) l'

section
variable {δ : Type} {answers : δ → (q : Q) → A q} {step : δ → Prog σ ε A Unit}

/-- **Idle steps can be left out**, any of them, and also where the others panic. -/
theorem evals_without {p : δ → Prop} (hlocal : ∀ x, Local V (step x))
    (hidle : ∀ x, p x → Idle V (answers x) (step x)) {l l' : List δ} (hl : Without p l l') {s t : σ}
    (h : V s = V t) :
    (evals answers step l s).1 = (evals answers step l' t).1 ∧
      V (evals answers step l s).2 = V (evals answers step l' t).2 := by
  induction hl generalizing s t with
  | nil => exact ⟨rfl, h⟩
  | keep x hl ih =>
    obtain ⟨hr, hV⟩ := hlocal x (answers x) s t h
    rw [evals, evals]
    generalize (step x).eval (answers x) s = u at hr hV
    generalize (step x).eval (answers x) t = v at hr hV
    obtain ⟨r, s'⟩ := u
    obtain ⟨r', t'⟩ := v
    obtain rfl : r = r' := hr
    cases r with
    | ok a => exact ih hV
    | error e => exact ⟨rfl, hV⟩
  | @drop x l l' hx hl ih =>
    obtain ⟨a, hr, hV⟩ := hidle x hx s
    rw [evals]
    generalize (step x).eval (answers x) s = u at hr hV
    obtain ⟨r, s'⟩ := u
    obtain rfl : r = .ok a := hr
    exact ih (hV.trans h)

end

end Prog

end Coop
