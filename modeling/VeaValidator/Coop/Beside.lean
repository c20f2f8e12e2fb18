import VeaValidator.Coop.System

/-!
Guests beside a covered system.

When a second group of roles does nothing that a protocol minds, the protocol still covers the
system with the two groups side by side, and all that it gives of the first group it gives of both.
-/

namespace Coop

open Prog

namespace Protocol

variable {ι κ σ ε Q : Type} {A : Q → Type} {α : Type} {P : Protocol ι σ ε A}
  {N : Protocol κ σ ε A}

/-- The rules of two groups of roles, under the invariant of the first. -/
@[simps]
def beside (P : Protocol ι σ ε A) (N : Protocol κ σ ε A) : Protocol (ι ⊕ κ) σ ε A where
  inv := P.inv
  durable := P.durable
  rely := Sum.elim P.rely N.rely
  guar := Sum.elim P.guar N.guar
  answer := Sum.elim P.answer N.answer
  issue := Sum.elim P.issue N.issue
  fault := Sum.elim P.fault N.fault

/-- What the guests write keeps the invariant and is nothing the hosts would notice. -/
structure Harmless (P : Protocol ι σ ε A) (N : Protocol κ σ ε A) : Prop where
  inv : ∀ s, P.inv s → N.inv s
  kept : ∀ k s t, N.guar k s t → P.inv s → P.durable t ∧ P.inv t
  unseen : ∀ k i s t, N.guar k s t → P.rely i s t

lemma wp_inl {p : Prog σ ε A α} {i : ι} {R : α → σ → Prop} {s : σ} (h : p.wp P i R s) :
    p.wp (P.beside N) (.inl i) R s := by
  induction p generalizing s with
  | ret a => exact h
  | panic e => exact h
  | read k ih => exact ih s h
  | write f k ih => exact ⟨h.1, h.2.1, ih h.2.2⟩
  | await q k ih => exact ⟨h.1, h.2.1, fun t ht hI a ha => ih a (h.2.2 t ht hI a ha)⟩

lemma wp_inr (hN : P.Harmless N) {p : Prog σ ε A α} {k : κ} {R : α → σ → Prop} {s : σ}
    (h : p.wp N k R s) (hI : P.inv s) :
    p.wp (P.beside N) (.inr k) (fun a t => R a t ∧ P.inv t) s := by
  induction p generalizing s with
  | ret a => exact ⟨h, hI⟩
  | panic e => exact ⟨hI, h.2⟩
  | read r ih => exact ih s h hI
  | write f r ih =>
    obtain ⟨hd, hI'⟩ := hN.kept k _ _ h.1 hI
    exact ⟨h.1, hd, ih h.2.2 hI'⟩
  | await q r ih =>
    exact ⟨hI, h.2.1, fun t ht hIt a ha => ih a (h.2.2 t ht (hN.inv t hIt) a ha) hIt⟩

/-- **Guests change nothing.** A protocol that covers a system covers the same system with harmless
guests, as far as its own roles go on as they did. -/
theorem Covers.beside {S : System ι σ ε A} {S' : System (ι ⊕ κ) σ ε A} (hP : P.Covers S)
    (hN : P.Harmless N) (hrefl : ∀ k s, N.rely k s s)
    (htrans : ∀ k s t u, N.rely k s t → N.rely k t u → N.rely k s u)
    (hguests : ∀ k k' s t, k ≠ k' → N.guar k s t → N.rely k' s t)
    (hhosts : ∀ i k s t, P.guar i s t → N.rely k s t)
    (hinit : ∀ s, S'.init s → S.init s) (henv : ∀ s t, S'.env s t → S.env s t)
    (henv' : ∀ k s t, S'.env s t → N.rely k s t)
    (hrestart : ∀ s t, S'.restart s t → S.restart s t)
    (hanswer : ∀ i q a s, S'.answer (.inl i) q a s → S.answer i q a s)
    (hanswer' : ∀ k q a s, S'.answer (.inr k) q a s → N.answer k q a s)
    (hboot : ∀ i p s t, S'.boot (.inl i) p → S.init s ∨ (∃ u, P.durable u ∧ S.restart u s) →
      P.rely i s t → P.inv t → p.wp P i (fun _ => P.inv) t)
    (hboot' : ∀ k p t, S'.boot (.inr k) p → P.inv t → p.wp N k (fun _ _ => True) t) :
    (P.beside N).Covers S' where
  rely_refl
    | .inl i, s => hP.rely_refl i s
    | .inr k, s => hrefl k s
  rely_trans
    | .inl i, s, t, u => hP.rely_trans i s t u
    | .inr k, s, t, u => htrans k s t u
  guar_rely
    | .inl i, .inl j, s, t, hij, h => hP.guar_rely i j s t (fun he => hij (congrArg _ he)) h
    | .inl i, .inr k, s, t, _, h => hhosts i k s t h
    | .inr k, .inl i, s, t, _, h => hN.unseen k i s t h
    | .inr k, .inr k', s, t, hkk, h => hguests k k' s t (fun he => hkk (congrArg _ he)) h
  answer
    | .inl i, q, a, s, ha => hP.answer i q a s (hanswer i q a s ha)
    | .inr k, q, a, s, ha => hanswer' k q a s ha
  env s t hst hI := by
    obtain ⟨hI', hrely⟩ := hP.env s t (henv s t hst) hI
    refine ⟨hI', fun j => ?_⟩
    rcases j with i | k
    · exact hrely i
    · exact henv' k s t hst
  init s hs := hP.init s (hinit s hs)
  boot i p s t hp hs hst hI := by
    have hs' : S.init s ∨ ∃ u, P.durable u ∧ S.restart u s := by
      rcases hs with hs | ⟨u, hu, hs⟩
      · exact .inl (hinit s hs)
      · exact .inr ⟨u, hu, hrestart u s hs⟩
    rcases i with i | k
    · exact wp_inl (hboot i p s t hp hs' hst hI)
    · exact wp_mono (fun _ _ h => h.2) (wp_inr hN (hboot' k p t hp hI) hI)
  durable s h := hP.durable s h
  restart s t hd h := hP.restart s t hd (hrestart s t h)

end Protocol

end Coop
