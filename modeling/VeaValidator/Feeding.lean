import VeaValidator.Interleaving

/-!
A route that is handed its logs one by one.

Where a condition is about the moment at which a log is handled, the log has to be seen in the
step. Here the indexer asks for the next log of either chain and handles it, so what it is
handed is the answer to a query. A chunk of a scan is such logs in a row.
-/

namespace VeaValidator

open Coop

namespace Indexer

/-- Handles the next log of a chain, if there is one. -/
def next (route : Route) (target : ScanTarget) : M Unit := do
  match ← Prog.ask (A := Query.Answer) (.logs (provider target) (chunkFilter route target 0 0)) with
  | .ok (log :: _) => handle route target log
  | _ => pure ()

/-- The first `n` turns of a loop over the logs of both chains. -/
def feed (route : Route) : ℕ → M Unit
  | 0 => pure ()
  | n + 1 => do
    next route .inbox
    next route .outbox
    feed route n

section
variable {ι : Type} {P : Protocol ι World Panic Query.Answer} {i : ι} {route : Route} {s : World}

/-- **The rule of the feed.** Every log is handled in the store in which it is handed out. -/
lemma wp_feed (hissue : ∀ q s, P.inv s → P.issue i q s)
    (hlog : ∀ target log logs s, P.inv s →
      P.answer i (.logs (provider target) (chunkFilter route target 0 0)) (.ok (log :: logs)) s →
      (handle route target log).wp P i (fun _ => P.inv) s) (n : ℕ) (hI : P.inv s) :
    (feed route n).wp P i (fun _ => P.inv) s := by
  have hnext : ∀ target s, P.inv s → (next route target).wp P i (fun _ => P.inv) s := by
    intro target s hI
    rw [next, Prog.wp_bind, Prog.wp_ask]
    refine ⟨hI, hissue _ s hI, fun t _ hIt a ha => ?_⟩
    rcases a with err | _ | ⟨log, logs⟩
    · exact hIt
    · exact hIt
    · exact hlog target log logs t hIt ha
  induction n generalizing s with
  | zero => exact hI
  | succ n ih =>
    rw [feed, Prog.wp_bind]
    refine Prog.wp_mono (fun _ t hIt => ?_) (hnext .inbox s hI)
    rw [Prog.wp_bind]
    exact Prog.wp_mono (fun _ u hIu => ih hIu) (hnext .outbox t hIt)

end

end Indexer

/-- A route on empty files whose indexer is handed any logs, while its dispatcher makes any
number of passes. -/
def feedSystem (route : Route) (answer : Role → (q : Query) → q.Answer → World → Prop)
    (restart : World → World → Prop) : System Role World Panic Query.Answer where
  init := Empty
  boot
    | .indexer, p => ∃ n, p = Indexer.feed route n
    | .dispatcher, p => ∃ n, p = Dispatcher.run route n
  answer
  env _ _ := False
  restart

namespace Sample

/-- Nodes at which a log is waiting. -/
def handing (target : ScanTarget) (log : Log) (o : (q : Query) → q.Answer) : (q : Query) → q.Answer
  | .logs p _ => if p = Indexer.provider target then .ok [log] else .ok []
  | q => o q

/-- The route on empty files, with its logs to be handed out and two passes to make. -/
def hungry : Config Role World Panic Query.Answer where
  store := { schedule := { onSync := true } }
  thread
    | .indexer => Indexer.feed route 4
    | .dispatcher => Dispatcher.run route 2

lemma reachable_hungry {answer : Role → (q : Query) → q.Answer → World → Prop}
    {restart : World → World → Prop} {l : List (Role × ((q : Query) → q.Answer))}
    (ho : ∀ x ∈ l, ∀ q s, answer x.1 q (x.2 q) s)
    (h : hungry.plays [.indexer, .dispatcher] l = true) :
    (feedSystem route answer restart).Reachable (hungry.play l) := by
  refine System.reachable_play mem_roles ho (.init ⟨rfl, rfl, rfl⟩ ?_) h
  rintro (_ | _)
  · exact ⟨4, rfl⟩
  · exact ⟨2, rfl⟩

end Sample

end VeaValidator
