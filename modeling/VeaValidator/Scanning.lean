import VeaValidator.Interleaving
import VeaValidator.Lifecycle

/-!
A route on its chains.

Here the indexer runs as it is: it scans both chains from its cursors on, chunk by chunk, while
their heads grow.
-/

namespace VeaValidator

open Coop

/-- The log is in a block from `fromBlock` to `toBlock`. -/
def Log.Within (log : Log) (fromBlock toBlock : ℕ) : Prop :=
  ∃ n, log.blockNumber = some n ∧ fromBlock ≤ n ∧ n ≤ toBlock

instance (log : Log) (fromBlock toBlock : ℕ) : Decidable (log.Within fromBlock toBlock) :=
  match h : log.blockNumber with
  | none => .isFalse fun ⟨_, hn, _⟩ => nomatch h.symm.trans hn
  | some n => decidable_of_iff (fromBlock ≤ n ∧ n ≤ toBlock)
      ⟨fun hn => ⟨n, h, hn⟩, fun ⟨m, hm, hn⟩ => by
        obtain rfl : n = m := Option.some.inj (h.symm.trans hm)
        exact hn⟩

/-- What can only stand at the front of a list is its beginning. -/
lemma filter_append_filter_not {α : Type} {p : α → Bool} {l : List α}
    (h : l.Pairwise fun a b => p b = true → p a = true) :
    l.filter p ++ l.filter (fun a => !p a) = l := by
  induction l with
  | nil => rfl
  | cons a l ih =>
    obtain ⟨hhead, htail⟩ := List.pairwise_cons.mp h
    by_cases ha : p a = true
    · rw [List.filter_cons_of_pos ha, List.filter_cons_of_neg (by simp [ha]), List.cons_append,
        ih htail]
    · have hnone : ∀ b ∈ l, ¬p b = true := fun b hb hp => ha (hhead b hb hp)
      have hnil : l.filter p = [] := List.filter_eq_nil_iff.mpr hnone
      have hall : l.filter (fun b => !p b) = l :=
        List.filter_eq_self.mpr fun b hb => by simp [hnone b hb]
      rw [List.filter_cons_of_neg ha, List.filter_cons_of_pos (by simp [ha]), hnil, hall,
        List.nil_append]

/-- The heads grow, and nothing else changes. -/
def Grown (s t : World) : Prop :=
  (∀ p, s.heads.get p ≤ t.heads.get p) ∧ t = { s with heads := t.heads }

/-- The indexer of a route begins with `start` and then scans, any number of times; its
dispatcher makes any number of passes. -/
def scanSystem (route : Route) (start : M Unit) (init : World → Prop)
    (answer : Role → (q : Query) → q.Answer → World → Prop) (restart : World → World → Prop) :
    System Role World Panic Query.Answer where
  init
  boot
    | .indexer, p => ∃ n, p = start >>= fun _ => Indexer.run route n
    | .dispatcher, p => ∃ n, p = Dispatcher.run route n
  answer
  env := Grown
  restart

end VeaValidator
