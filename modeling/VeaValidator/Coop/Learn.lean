import VeaValidator.Coop.Comes

/-!
What a program learns from the answers it gets.

What a program asks and returns can be justified by what it has heard: that is a weakest precondition
in which all answers are taken from a given set. What is shown for every such set holds for the
answers of a run.
-/

namespace Coop

/-- A program on its own that gets its answers from `H` and asks as `C` says. -/
@[simps]
def Protocol.hearing {σ ε Q : Type} {A : Q → Type} (H : (q : Q) → A q → Prop)
    (C : Q → σ → Prop) : Protocol Unit σ ε A where
  inv _ := True
  durable _ := True
  rely _ _ _ := True
  guar _ _ _ := True
  answer _ q a _ := H q a
  issue _ := C
  fault _ _ _ := True

namespace Prog

variable {σ ε Q : Type} {A : Q → Type} {α β δ : Type} {rely : σ → σ → Prop} {s t u : σ}
  {l : List ((q : Q) × A q)} {q : Q} {H : (q : Q) → A q → Prop} {C : Q → σ → Prop} {K : α → Prop}
  {K' : β → Prop}

/-- What is in a list of exchanges. -/
def In (l : List ((q : Q) × A q)) (q : Q) (a : A q) : Prop := ⟨q, a⟩ ∈ l

/-- A program that hears what is in `H` asks what `C` allows, and knows `K` of what it returns. -/
def Learns (H : (q : Q) → A q → Prop) (C : Q → σ → Prop) (K : α → Prop) (p : Prog σ ε A α) : Prop :=
  ∀ s, p.wp (.hearing H C) () (fun a _ => K a) s

/-- The same for a program that can fail. -/
def Tells (H : (q : Q) → A q → Prop) (C : Q → σ → Prop) (K : α → Prop)
    (x : ExceptT δ (Prog σ ε A) α) : Prop :=
  Learns H C (Returns K fun _ => True) x.run

/-- The same for a program that leaves a store which suits what it returns. -/
def Leaves (H : (q : Q) → A q → Prop) (C : Q → σ → Prop) (K : α → σ → Prop)
    (x : ExceptT δ (Prog σ ε A) α) : Prop :=
  ∀ s, x.run.wp (.hearing H C) () (fun r t => Returns (K · t) (fun _ => True) r) s

namespace Learns

lemma pure {a : α} (h : K a) : Learns H C K (Pure.pure a : Prog σ ε A α) := fun _ => h

lemma panic {e : ε} : Learns H C K (.panic e : Prog σ ε A α) := fun _ => ⟨trivial, trivial⟩

lemma ask (h : ∀ s, C q s) : Learns H C (H q) (ask q : Prog σ ε A (A q)) := fun s =>
  ⟨trivial, h s, fun _ _ _ _ ha => ha⟩

lemma bind {p : Prog σ ε A α} {g : α → Prog σ ε A β} (hp : Learns H C K p)
    (hg : ∀ a, K a → Learns H C K' (g a)) : Learns H C K' (p >>= g) := by
  intro s
  rw [wp_bind]
  exact wp_mono (fun a t ha => hg a ha t) (hp s)

lemma ite {c : Prop} [Decidable c] {p q : Prog σ ε A α} (hp : c → Learns H C K p)
    (hq : ¬c → Learns H C K q) : Learns H C K (if c then p else q) := by
  split
  · next h => exact hp h
  · next h => exact hq h

lemma mono {K' : α → Prop} {p : Prog σ ε A α} (hp : Learns H C K p) (h : ∀ a, K a → K' a) :
    Learns H C K' p := fun s => wp_mono (fun a _ ha => h a ha) (hp s)

/-- What is known of a result is known when the program has heard what it may hear. -/
lemma heard {p : Prog σ ε A α} {a : α} (h : Learns H C K p) (hl : ∀ x ∈ l, H x.1 x.2)
    (ht : p.Talks rely s l (.ok a) t) : K a :=
  wp_talks (R := fun a _ => K a) (h s) (fun _ _ _ => ⟨trivial, trivial⟩) (fun x hx _ => hl x hx) ht

/-- **The rule of evidence.** What is known of a result whatever the program hears, is known of it by
what the program has heard. -/
lemma talks {C : ((q : Q) → A q → Prop) → Q → σ → Prop} {K : ((q : Q) → A q → Prop) → α → Prop}
    {p : Prog σ ε A α} {a : α} (h : ∀ H, Learns H (C H) (K H) p)
    (ht : p.Talks rely s l (.ok a) t) : K (In l) a :=
  heard (h (In l)) (fun _ hx => hx) ht

/-- So is every query. -/
lemma comes {C : ((q : Q) → A q → Prop) → Q → σ → Prop} {K : ((q : Q) → A q → Prop) → α → Prop}
    {p : Prog σ ε A α} (h : ∀ H, Learns H (C H) (K H) p) (hc : p.Comes rely s l q u) :
    C (In l) q u :=
  wp_comes (h (In l) s) (fun _ _ _ => ⟨trivial, trivial⟩) (fun _ hx _ => hx) hc

/-- What is never justified is never asked. -/
lemma never {C : ((q : Q) → A q → Prop) → Q → σ → Prop} {K : ((q : Q) → A q → Prop) → α → Prop}
    {D : Q → Prop} {p : Prog σ ε A α} (h : ∀ H, Learns H (C H) (K H) p)
    (hD : ∀ H q s, C H q s → ¬D q) : Never D p := fun _ _ _ _ _ hc => hD _ _ _ (comes h hc)

end Learns

namespace Tells

lemma pure {a : α} (h : K a) : Tells H C K (Pure.pure a : ExceptT δ (Prog σ ε A) α) := fun _ => h

lemma throw {d : δ} : Tells H C K (throw d : ExceptT δ (Prog σ ε A) α) := fun _ => trivial

lemma bind {x : ExceptT δ (Prog σ ε A) α} {g : α → ExceptT δ (Prog σ ε A) β} (hx : Tells H C K x)
    (hg : ∀ a, K a → Tells H C K' (g a)) : Tells H C K' (x >>= g) := by
  intro s
  rw [wp_run_bind]
  refine wp_mono (fun r t hr => ?_) (hx s)
  cases r with
  | ok a => exact hg a hr t
  | error d => exact trivial

lemma lift {p : Prog σ ε A α} (hp : Learns H C K p) :
    Tells H C K (ExceptT.lift p : ExceptT δ (Prog σ ε A) α) := fun s => wp_run_lift.mpr (hp s)

lemma ite {c : Prop} [Decidable c] {x y : ExceptT δ (Prog σ ε A) α} (hx : c → Tells H C K x)
    (hy : ¬c → Tells H C K y) : Tells H C K (if c then x else y) := by
  split
  · next h => exact hx h
  · next h => exact hy h

lemma mono {K' : α → Prop} {x : ExceptT δ (Prog σ ε A) α} (hx : Tells H C K x)
    (h : ∀ a, K a → K' a) : Tells H C K' x := by
  refine Learns.mono hx fun r hr => ?_
  cases r with
  | ok a => exact h a hr
  | error d => trivial

end Tells

namespace Leaves

variable {K : α → σ → Prop} {K' : β → σ → Prop}

lemma pure {a : α} (h : ∀ s, K a s) : Leaves H C K (Pure.pure a : ExceptT δ (Prog σ ε A) α) := h

lemma throw {d : δ} : Leaves H C K (throw d : ExceptT δ (Prog σ ε A) α) := fun _ => trivial

/-- What has been learned before goes on to be known. -/
lemma bind {J : α → Prop} {x : ExceptT δ (Prog σ ε A) α} {g : α → ExceptT δ (Prog σ ε A) β}
    (hx : Tells H C J x) (hg : ∀ a, J a → Leaves H C K' (g a)) : Leaves H C K' (x >>= g) := by
  intro s
  rw [wp_run_bind]
  refine wp_mono (fun r t hr => ?_) (hx s)
  cases r with
  | ok a => exact hg a hr t
  | error d => exact trivial

lemma ite {c : Prop} [Decidable c] {x y : ExceptT δ (Prog σ ε A) α} (hx : c → Leaves H C K x)
    (hy : ¬c → Leaves H C K y) : Leaves H C K (if c then x else y) := by
  split
  · next h => exact hx h
  · next h => exact hy h

lemma mono {K' : α → σ → Prop} {x : ExceptT δ (Prog σ ε A) α} (hx : Leaves H C K x)
    (h : ∀ a s, K a s → K' a s) : Leaves H C K' x := by
  refine fun s => wp_mono (fun r t hr => ?_) (hx s)
  cases r with
  | ok a => exact h a t hr
  | error d => trivial

/-- What is left is known by what the program has heard. -/
lemma talks {C : ((q : Q) → A q → Prop) → Q → σ → Prop} {K : ((q : Q) → A q → Prop) → α → σ → Prop}
    {x : ExceptT δ (Prog σ ε A) α} {a : α} (h : ∀ H, Leaves H (C H) (K H) x)
    (ht : x.run.Talks rely s l (.ok (.ok a)) t) : K (In l) a t :=
  wp_talks (R := fun r t => Returns (K (In l) · t) (fun _ => True) r) (h (In l) s)
    (fun _ _ _ => ⟨trivial, trivial⟩) (fun _ hx _ => hx) ht

lemma comes {C : ((q : Q) → A q → Prop) → Q → σ → Prop} {K : ((q : Q) → A q → Prop) → α → σ → Prop}
    {x : ExceptT δ (Prog σ ε A) α} (h : ∀ H, Leaves H (C H) (K H) x)
    (hc : x.run.Comes rely s l q u) : C (In l) q u :=
  wp_comes (h (In l) s) (fun _ _ _ => ⟨trivial, trivial⟩) (fun _ hx _ => hx) hc

end Leaves

end Prog

end Coop
