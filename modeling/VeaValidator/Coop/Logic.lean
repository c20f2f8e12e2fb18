import VeaValidator.Coop.Prog
import Mathlib.Tactic.Simps.Basic

/-!
Weakest preconditions of cooperative programs, in rely/guarantee form.

A protocol says what holds of the store whenever nobody is running, what each role may do to
the store and what it relies on the others for. The weakest precondition of a program is
computed along its text: a read or a write is executed, and at a suspension point the
invariant has to hold and is all that is known afterwards, besides what the role relies on.
-/

namespace Coop

/-- The rules of sharing a store among the roles `ι`. -/
structure Protocol (ι σ ε : Type) {Q : Type} (A : Q → Type) where
  /-- Holds whenever every role is suspended. -/
  inv : σ → Prop
  /-- Holds after every single write. -/
  durable : σ → Prop
  /-- What the others may do while a role is suspended. -/
  rely : ι → σ → σ → Prop
  /-- What each write of a role does. -/
  guar : ι → σ → σ → Prop
  /-- The answers a role can get, in the store it wakes up in. -/
  answer : ι → (q : Q) → A q → σ → Prop
  /-- What holds when a role suspends on a query. -/
  issue : ι → Q → σ → Prop
  /-- The panics of a role that are allowed, and where. -/
  fault : ι → ε → σ → Prop

namespace Protocol

variable {ι σ ε Q : Type} {A : Q → Type}

/-- A program on its own in a world that does whatever it likes at the suspension points:
every write is in `G`, every query in `S` and every panic in `F`. -/
@[simps]
def loose (G : σ → σ → Prop) (S : Q → σ → Prop) (F : ε → σ → Prop) :
    Protocol Unit σ ε A where
  inv _ := True
  durable _ := True
  rely _ _ _ := True
  guar _ := G
  answer _ _ _ _ := True
  issue _ := S
  fault _ := F

/-- A program on its own among others that change the store at the suspension points as `rely`
says; only its panics are restricted. -/
@[simps]
def disturbed (rely : σ → σ → Prop) (answer : (q : Q) → A q → σ → Prop) (F : ε → σ → Prop) :
    Protocol Unit σ ε A where
  inv _ := True
  durable _ := True
  rely _ := rely
  guar _ _ _ := True
  answer _ := answer
  issue _ _ _ := True
  fault _ := F

end Protocol

namespace Prog

variable {ι σ ε Q : Type} {A : Q → Type} {α β δ : Type}

/-- The weakest precondition of a program of role `i` for the postcondition `R`. -/
def wp (P : Protocol ι σ ε A) (i : ι) : Prog σ ε A α → (α → σ → Prop) → σ → Prop
  | .ret a, R, s => R a s
  | .panic e, _, s => P.inv s ∧ P.fault i e s
  | .read k, R, s => (k s).wp P i R s
  | .write f k, R, s => P.guar i s (f s) ∧ P.durable (f s) ∧ k.wp P i R (f s)
  | .await q k, R, s => P.inv s ∧ P.issue i q s ∧
      ∀ t, P.rely i s t → P.inv t → ∀ a, P.answer i q a t → (k a).wp P i R t

variable {P : Protocol ι σ ε A} {i : ι} {s : σ}

@[simp] lemma wp_pure {a : α} {R : α → σ → Prop} :
    (pure a : Prog σ ε A α).wp P i R s ↔ R a s := Iff.rfl

@[simp] lemma wp_panic {e : ε} {R : α → σ → Prop} :
    (.panic e : Prog σ ε A α).wp P i R s ↔ P.inv s ∧ P.fault i e s := Iff.rfl

@[simp] lemma wp_gets {f : σ → α} {R : α → σ → Prop} :
    (gets f : Prog σ ε A α).wp P i R s ↔ R (f s) s := Iff.rfl

@[simp] lemma wp_modify {f : σ → σ} {R : Unit → σ → Prop} :
    (modify f : Prog σ ε A Unit).wp P i R s ↔
      P.guar i s (f s) ∧ P.durable (f s) ∧ R () (f s) := Iff.rfl

@[simp] lemma wp_ask {q : Q} {R : A q → σ → Prop} :
    (ask q : Prog σ ε A (A q)).wp P i R s ↔ P.inv s ∧ P.issue i q s ∧
      ∀ t, P.rely i s t → P.inv t → ∀ a, P.answer i q a t → R a t := Iff.rfl

@[simp] lemma wp_bind {p : Prog σ ε A α} {g : α → Prog σ ε A β} {R : β → σ → Prop} :
    (p >>= g).wp P i R s ↔ p.wp P i (fun a => (g a).wp P i R) s := by
  show (p.bind g).wp P i R s ↔ _
  induction p generalizing s with
  | ret a => exact Iff.rfl
  | panic e => exact Iff.rfl
  | read k ih => exact ih s
  | write f k ih => simp only [bind, wp, ih]
  | await q k ih => simp only [bind, wp, ih]

@[simp] lemma wp_ite {c : Prop} [Decidable c] {p q : Prog σ ε A α} {R : α → σ → Prop} :
    (if c then p else q).wp P i R s ↔ (c → p.wp P i R s) ∧ (¬c → q.wp P i R s) := by
  split <;> simp_all

lemma wp_mono {p : Prog σ ε A α} {R R' : α → σ → Prop} (h : ∀ a t, R a t → R' a t)
    (hp : p.wp P i R s) : p.wp P i R' s := by
  induction p generalizing s with
  | ret a => exact h a s hp
  | panic e => exact hp
  | read k ih => exact ih s hp
  | write f k ih => exact ⟨hp.1, hp.2.1, ih hp.2.2⟩
  | await q k ih => exact ⟨hp.1, hp.2.1, fun t ht hI a ha => ih a (hp.2.2 t ht hI a ha)⟩

lemma wp_and {p : Prog σ ε A α} {R R' : α → σ → Prop} (h : p.wp P i R s) (h' : p.wp P i R' s) :
    p.wp P i (fun a t => R a t ∧ R' a t) s := by
  induction p generalizing s with
  | ret a => exact ⟨h, h'⟩
  | panic e => exact h
  | read k ih => exact ih s h h'
  | write f k ih => exact ⟨h.1, h.2.1, ih h.2.2 h'.2.2⟩
  | await q k ih =>
    exact ⟨h.1, h.2.1, fun t ht hI a ha => ih a (h.2.2 t ht hI a ha) (h'.2.2 t ht hI a ha)⟩

/-- **The loop rule.** What the body keeps with `l` still to do and one element taken off, the
loop keeps down to the empty list. -/
lemma wp_forM {f : β → Prog σ ε A PUnit} {J : List β → σ → Prop}
    (hf : ∀ b l s, J (b :: l) s → (f b).wp P i (fun _ => J l) s) {l : List β} (h : J l s) :
    (forM l f).wp P i (fun _ => J []) s := by
  induction l generalizing s with
  | nil => exact h
  | cons b l ih =>
    rw [List.forM_cons, wp_bind]
    exact wp_mono (fun _ t ht => ih ht) (hf b l s h)

/-! ### Programs that can fail -/

/-- The rule of `?`: a failed call hands its error on. -/
@[simp] lemma wp_run_bind {x : ExceptT δ (Prog σ ε A) α}
    {g : α → ExceptT δ (Prog σ ε A) β} {R : Except δ β → σ → Prop} :
    (x >>= g).run.wp P i R s ↔ x.run.wp P i (fun r t => match r with
      | .ok a => (g a).run.wp P i R t
      | .error d => R (.error d) t) s := by
  rw [ExceptT.run_bind, wp_bind]
  refine Iff.of_eq (congrArg (x.run.wp P i · s) ?_)
  funext r t
  cases r <;> rfl

@[simp] lemma wp_run_pure {a : α} {R : Except δ α → σ → Prop} :
    (pure a : ExceptT δ (Prog σ ε A) α).run.wp P i R s ↔ R (.ok a) s := Iff.rfl

@[simp] lemma wp_run_throw {d : δ} {R : Except δ α → σ → Prop} :
    (throw d : ExceptT δ (Prog σ ε A) α).run.wp P i R s ↔ R (.error d) s := Iff.rfl

@[simp] lemma wp_run_lift {p : Prog σ ε A α} {R : Except δ α → σ → Prop} :
    (ExceptT.lift p).run.wp P i R s ↔ p.wp P i (fun a => R (.ok a)) s := by
  rw [ExceptT.run_lift, map_eq_pure_bind, wp_bind]
  exact Iff.rfl

lemma wp_run_lift_bind {p : Prog σ ε A α} {g : α → ExceptT δ (Prog σ ε A) β}
    {R : Except δ β → σ → Prop} :
    (ExceptT.lift p >>= g).run.wp P i R s ↔ p.wp P i (fun a => (g a).run.wp P i R) s := by
  rw [wp_run_bind, wp_run_lift]

@[simp] lemma wp_run_ite {c : Prop} [Decidable c] {x y : ExceptT δ (Prog σ ε A) α}
    {R : Except δ α → σ → Prop} :
    (if c then x else y).run.wp P i R s ↔ (c → x.run.wp P i R s) ∧ (¬c → y.run.wp P i R s) := by
  split <;> simp_all

/-! ### Keeping the invariant -/

/-- Wherever the program is started with the invariant and `J`, it ends with them. -/
def Keeps (P : Protocol ι σ ε A) (i : ι) (J : σ → Prop) (p : Prog σ ε A α) : Prop :=
  ∀ s, P.inv s → J s → p.wp P i (fun _ t => P.inv t ∧ J t) s

namespace Keeps

variable {J : σ → Prop}

lemma pure {a : α} : Keeps P i J (Pure.pure a) := fun _ hI hJ => ⟨hI, hJ⟩

lemma panic {e : ε} (h : ∀ s, P.inv s → J s → P.fault i e s) :
    Keeps P i J (.panic e : Prog σ ε A α) := fun s hI hJ => ⟨hI, h s hI hJ⟩

lemma gets {f : σ → α} : Keeps P i J (gets f) := fun _ hI hJ => ⟨hI, hJ⟩

lemma ask {q : Q} (hrely : ∀ s t, J s → P.rely i s t → P.inv t → J t)
    (h : ∀ s, P.inv s → J s → P.issue i q s) : Keeps P i J (ask q) :=
  fun s hI hJ => ⟨hI, h s hI hJ, fun t ht hIt _ _ => ⟨hIt, hrely s t hJ ht hIt⟩⟩

lemma bind {p : Prog σ ε A α} {g : α → Prog σ ε A β} (hp : Keeps P i J p)
    (hg : ∀ a, Keeps P i J (g a)) : Keeps P i J (p >>= g) := by
  intro s hI hJ
  rw [wp_bind]
  exact wp_mono (fun a t ht => hg a t ht.1 ht.2) (hp s hI hJ)

lemma ite {c : Prop} [Decidable c] {p q : Prog σ ε A α} (hp : c → Keeps P i J p)
    (hq : ¬c → Keeps P i J q) : Keeps P i J (if c then p else q) := by
  by_cases h : c
  · rw [if_pos h]
    exact hp h
  · rw [if_neg h]
    exact hq h

lemma run_pure {a : α} : Keeps P i J (Pure.pure a : ExceptT δ (Prog σ ε A) α).run := pure

lemma run_throw {d : δ} : Keeps P i J (throw d : ExceptT δ (Prog σ ε A) α).run := pure

lemma run_lift {p : Prog σ ε A α} (hp : Keeps P i J p) :
    Keeps P i J (ExceptT.lift p : ExceptT δ (Prog σ ε A) α).run :=
  fun s hI hJ => wp_run_lift.mpr (hp s hI hJ)

lemma run_bind {x : ExceptT δ (Prog σ ε A) α} {g : α → ExceptT δ (Prog σ ε A) β}
    (hx : Keeps P i J x.run) (hg : ∀ a, Keeps P i J (g a).run) : Keeps P i J (x >>= g).run := by
  intro s hI hJ
  rw [wp_run_bind]
  refine wp_mono (fun r t ht => ?_) (hx s hI hJ)
  cases r with
  | ok a => exact hg a t ht.1 ht.2
  | error d => exact ht

lemma run_ite {c : Prop} [Decidable c] {x y : ExceptT δ (Prog σ ε A) α}
    (hx : c → Keeps P i J x.run) (hy : ¬c → Keeps P i J y.run) :
    Keeps P i J (if c then x else y).run := ite hx hy

lemma forM {f : β → Prog σ ε A PUnit} (hf : ∀ b, Keeps P i J (f b)) (l : List β) :
    Keeps P i J (forM l f) := by
  intro s hI hJ
  have hJ' : (fun (_ : List β) t => P.inv t ∧ J t) l s := ⟨hI, hJ⟩
  exact wp_forM (fun b _ t ht => hf b t ht.1 ht.2) hJ'

end Keeps

/-! ### From one protocol to another -/

/-- What a program does in a world that does whatever it likes, it does under every protocol
that admits it, and with it everything its role can rely on is kept. -/
lemma wp_of_loose {G : σ → σ → Prop} {S : Q → σ → Prop} {F : ε → σ → Prop} {J : σ → Prop}
    {p : Prog σ ε A α} {R : α → σ → Prop} (h : p.wp (.loose G S F) () R s)
    (hrely : ∀ s t, J s → P.rely i s t → P.inv t → J t)
    (hG : ∀ s t, P.inv s → J s → G s t → P.guar i s t ∧ P.durable t ∧ P.inv t ∧ J t)
    (hS : ∀ q s, P.inv s → J s → S q s → P.issue i q s)
    (hF : ∀ e s, P.inv s → J s → F e s → P.fault i e s) (hI : P.inv s) (hJ : J s) :
    p.wp P i (fun a t => R a t ∧ P.inv t ∧ J t) s := by
  induction p generalizing s with
  | ret a => exact ⟨h, hI, hJ⟩
  | panic e => exact ⟨hI, hF e s hI hJ h.2⟩
  | read k ih => exact ih s h hI hJ
  | write f k ih =>
    obtain ⟨hg, hd, hI', hJ'⟩ := hG s (f s) hI hJ h.1
    exact ⟨hg, hd, ih h.2.2 hI' hJ'⟩
  | await q k ih =>
    refine ⟨hI, hS q s hI hJ h.2.1, fun t ht hIt a _ => ?_⟩
    exact ih a (h.2.2 t trivial trivial a trivial) hIt (hrely s t hJ ht hIt)

/-- The same for a program that needs nothing to start with. -/
lemma Keeps.of_loose {G : σ → σ → Prop} {S : Q → σ → Prop} {F : ε → σ → Prop} {J : σ → Prop}
    {p : Prog σ ε A α} (h : Keeps (.loose G S F) () (fun _ => True) p)
    (hrely : ∀ s t, J s → P.rely i s t → P.inv t → J t)
    (hG : ∀ s t, P.inv s → J s → G s t → P.guar i s t ∧ P.durable t ∧ P.inv t ∧ J t)
    (hS : ∀ q s, P.inv s → J s → S q s → P.issue i q s)
    (hF : ∀ e s, P.inv s → J s → F e s → P.fault i e s) : Keeps P i J p := by
  intro s hI hJ
  have hw := wp_of_loose (P := P) (i := i) (h s trivial trivial) hrely hG hS hF hI hJ
  exact wp_mono (fun _ t ht => ht.2) hw

/-- A weakest precondition speaks of every run. -/
lemma wp_runs {p : Prog σ ε A α} {R : α → σ → Prop} (h : p.wp P i R s) {r : Except ε α} {t : σ}
    (hr : p.Runs (fun s t => P.rely i s t ∧ P.inv t) (P.answer i) s r t) :
    (∀ a, r = .ok a → R a t) ∧ ∀ e, r = .error e → P.fault i e t := by
  induction p generalizing s with
  | ret a =>
    obtain ⟨rfl, rfl⟩ := hr
    exact ⟨fun b hb => by cases hb; exact h, nofun⟩
  | panic e =>
    obtain ⟨rfl, rfl⟩ := hr
    exact ⟨nofun, fun e' he => by cases he; exact h.2⟩
  | read k ih => exact ih s h hr
  | write f k ih => exact ih h.2.2 hr
  | await q k ih =>
    obtain ⟨u, ⟨hu, hI⟩, a, ha, hr⟩ := hr
    exact ih a (h.2.2 u hu hI a ha) hr

/-- A weakest precondition speaks of every write. -/
lemma wp_writes {p : Prog σ ε A α} {R : α → σ → Prop} (h : p.wp P i R s) {u v : σ}
    (hw : p.Writes (fun s t => P.rely i s t ∧ P.inv t) (P.answer i) s u v) : P.guar i u v := by
  induction p generalizing s with
  | ret a => exact hw.elim
  | panic e => exact hw.elim
  | read k ih => exact ih s h hw
  | write f k ih =>
    rcases hw with ⟨rfl, rfl⟩ | hw
    · exact h.1
    · exact ih h.2.2 hw
  | await q k ih =>
    obtain ⟨t, ⟨ht, hI⟩, a, ha, hw⟩ := hw
    exact ih a (h.2.2 t ht hI a ha) hw

/-- What a program writes in a world that does whatever it likes, is all it writes. -/
lemma Writes.of_loose {G : σ → σ → Prop} {S : Q → σ → Prop} {F : ε → σ → Prop}
    {rely : σ → σ → Prop} {answer : (q : Q) → A q → σ → Prop} {p : Prog σ ε A α} {u v : σ}
    (hw : p.Writes rely answer s u v) (h : Keeps (.loose G S F) () (fun _ => True) p) : G u v :=
  wp_writes (h s trivial trivial)
    (hw.mono (fun _ _ _ => ⟨trivial, trivial⟩) fun _ _ _ _ => trivial)

/-- The same where nothing but the panics is restricted. -/
lemma wp_runs_disturbed {rely : σ → σ → Prop} {answer : (q : Q) → A q → σ → Prop}
    {F : ε → σ → Prop} {p : Prog σ ε A α} {R : α → σ → Prop}
    (h : p.wp (.disturbed rely answer F) () R s) {r : Except ε α} {t : σ}
    (hr : p.Runs rely answer s r t) : (∀ a, r = .ok a → R a t) ∧ ∀ e, r = .error e → F e t := by
  have hrely : (fun s t => (Protocol.disturbed rely answer F).rely () s t ∧
      (Protocol.disturbed rely answer F).inv t) = rely := by
    funext s t
    exact propext (and_iff_left trivial)
  refine wp_runs h ?_
  rw [hrely]
  exact hr

end Prog

end Coop
