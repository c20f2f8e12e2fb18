import Mathlib.Logic.Function.Basic

/-!
Cooperative programs over a shared store.

A program owns the store between two suspension points: there it reads and writes without
anybody in between. At a suspension point it asks the environment a query and goes on with
the answer, and everything else may have happened in the meantime. A program may also
panic, which ends it on the spot.
-/

namespace Coop

/-- A program over stores `σ` with panics `ε`, whose query `q` is answered by an `A q`. -/
inductive Prog (σ ε : Type) {Q : Type} (A : Q → Type) (α : Type) : Type
  | ret (a : α)
  | panic (e : ε)
  | read (k : σ → Prog σ ε A α)
  | write (f : σ → σ) (k : Prog σ ε A α)
  | await (q : Q) (k : A q → Prog σ ε A α)

namespace Prog

variable {σ ε Q : Type} {A : Q → Type} {α β γ : Type}

def bind : Prog σ ε A α → (α → Prog σ ε A β) → Prog σ ε A β
  | .ret a, g => g a
  | .panic e, _ => .panic e
  | .read k, g => .read fun s => (k s).bind g
  | .write f k, g => .write f (k.bind g)
  | .await q k, g => .await q fun a => (k a).bind g

instance : Monad (Prog σ ε A) where
  pure := .ret
  bind := .bind

/-- The value `f` has at the current store. -/
def gets (f : σ → α) : Prog σ ε A α := .read fun s => .ret (f s)

/-- One write to the store. -/
def modify (f : σ → σ) : Prog σ ε A Unit := .write f (.ret ())

/-- Suspends on the query `q` and returns its answer. -/
def ask (q : Q) : Prog σ ε A (A q) := .await q .ret

lemma bind_ret (p : Prog σ ε A α) : p.bind .ret = p := by
  induction p with
  | ret a => rfl
  | panic e => rfl
  | read k ih => simp only [bind, ih]
  | write f k ih => simp only [bind, ih]
  | await q k ih => simp only [bind, ih]

lemma bind_assoc (p : Prog σ ε A α) (g : α → Prog σ ε A β) (h : β → Prog σ ε A γ) :
    (p.bind g).bind h = p.bind fun a => (g a).bind h := by
  induction p with
  | ret a => rfl
  | panic e => rfl
  | read k ih => simp only [bind, ih]
  | write f k ih => simp only [bind, ih]
  | await q k ih => simp only [bind, ih]

instance : LawfulMonad (Prog σ ε A) :=
  LawfulMonad.mk' _ bind_ret (fun _ _ => rfl) bind_assoc

/-! ### One burst: everything up to the next suspension point -/

/-- The query the program is suspended on. -/
def query? : Prog σ ε A α → Option Q
  | .await q _ => some q
  | _ => none

/-- The program has panicked. -/
def panicked : Prog σ ε A α → Bool
  | .panic _ => true
  | _ => false

/-- The panic the program has ended with. -/
def panic? : Prog σ ε A α → Option ε
  | .panic e => some e
  | _ => none

lemma eq_panic_of_panic? {p : Prog σ ε A α} {e : ε} (h : p.panic? = some e) : p = .panic e := by
  cases p with
  | panic e' =>
    cases h
    rfl
  | ret a => cases h
  | read k => cases h
  | write f k => cases h
  | await q k => cases h

/-- The program goes on with what `o` answers to its query, if it has one. -/
def resume (o : (q : Q) → A q) : Prog σ ε A α → Prog σ ε A α
  | .await q k => k (o q)
  | p => p

lemma exists_of_query? {p : Prog σ ε A α} {q : Q} (h : p.query? = some q) :
    ∃ k, p = .await q k := by
  cases p with
  | await q k =>
    cases h
    exact ⟨k, rfl⟩
  | ret a => cases h
  | panic e => cases h
  | read k => cases h
  | write f k => cases h

lemma resume_of_query?_none {p : Prog σ ε A α} {o : (q : Q) → A q} (h : p.query? = none) :
    p.resume o = p := by
  cases p with
  | await q k => cases h
  | ret a => rfl
  | panic e => rfl
  | read k => rfl
  | write f k => rfl

/-- Runs the reads and writes of a program up to its next suspension point, its end or a
panic; the second component is what is left to run. -/
def burst : Prog σ ε A α → σ → σ × Prog σ ε A α
  | .ret a, s => (s, .ret a)
  | .panic e, s => (s, .panic e)
  | .read k, s => (k s).burst s
  | .write f k, s => k.burst (f s)
  | .await q k, s => (s, .await q k)

/-- The stores a burst leaves behind after one of its writes. -/
def passes : Prog σ ε A α → σ → σ → Prop
  | .ret _, _, _ => False
  | .panic _, _, _ => False
  | .read k, s, t => (k s).passes s t
  | .write f k, s, t => t = f s ∨ k.passes (f s) t
  | .await _ _, _, _ => False

/-! ### A whole run, with interference at the suspension points -/

/-- The run of a program from `s` to its end: at every suspension point the store may change
as `rely` says, and the answer is one that `answer` admits in the changed store. -/
def Runs (rely : σ → σ → Prop) (answer : (q : Q) → A q → σ → Prop) :
    Prog σ ε A α → σ → Except ε α → σ → Prop
  | .ret a, s, r, t => r = .ok a ∧ t = s
  | .panic e, s, r, t => r = .error e ∧ t = s
  | .read k, s, r, t => (k s).Runs rely answer s r t
  | .write f k, s, r, t => k.Runs rely answer (f s) r t
  | .await q k, s, r, t =>
    ∃ u, rely s u ∧ ∃ a, answer q a u ∧ (k a).Runs rely answer u r t

/-- In some run from `s`, finished or not, the program writes `v` over `u`. -/
def Writes (rely : σ → σ → Prop) (answer : (q : Q) → A q → σ → Prop) :
    Prog σ ε A α → σ → σ → σ → Prop
  | .ret _, _, _, _ => False
  | .panic _, _, _, _ => False
  | .read k, s, u, v => (k s).Writes rely answer s u v
  | .write f k, s, u, v => (u = s ∧ v = f s) ∨ k.Writes rely answer (f s) u v
  | .await q k, s, u, v =>
    ∃ t, rely s t ∧ ∃ a, answer q a t ∧ (k a).Writes rely answer t u v

/-- The run with the answers of `o` and nobody else around. -/
def eval (o : (q : Q) → A q) : Prog σ ε A α → σ → Except ε α × σ
  | .ret a, s => (.ok a, s)
  | .panic e, s => (.error e, s)
  | .read k, s => (k s).eval o s
  | .write f k, s => k.eval o (f s)
  | .await q k, s => (k (o q)).eval o s

/-- Every suspension point of this run is in a store that meets `p`. -/
def evalVisits (o : (q : Q) → A q) (p : σ → Bool) : Prog σ ε A α → σ → Bool
  | .ret _, _ => true
  | .panic _, _ => true
  | .read k, s => (k s).evalVisits o p s
  | .write f k, s => k.evalVisits o p (f s)
  | .await q k, s => p s && (k (o q)).evalVisits o p s

/-- The writes of this run, each with the stores before and after it. -/
def evalWrites (o : (q : Q) → A q) : Prog σ ε A α → σ → List (σ × σ)
  | .ret _, _ => []
  | .panic _, _ => []
  | .read k, s => (k s).evalWrites o s
  | .write f k, s => (s, f s) :: k.evalWrites o (f s)
  | .await q k, s => (k (o q)).evalWrites o s

/-- The stores this run can be stopped in: the first one and the one after each write. -/
def stops (o : (q : Q) → A q) (p : Prog σ ε A α) (s : σ) : List σ :=
  s :: (p.evalWrites o s).map Prod.snd

lemma eval_bind (o : (q : Q) → A q) (p : Prog σ ε A α) (g : α → Prog σ ε A β) (s : σ) :
    (p >>= g).eval o s = match p.eval o s with
      | (.ok a, t) => (g a).eval o t
      | (.error e, t) => (.error e, t) := by
  show (p.bind g).eval o s = _
  induction p generalizing s with
  | ret a => rfl
  | panic e => rfl
  | read k ih => exact ih s s
  | write f k ih => exact ih (f s)
  | await q k ih => exact ih (o q) s

lemma evalWrites_bind (o : (q : Q) → A q) (p : Prog σ ε A α) (g : α → Prog σ ε A β) (s : σ) :
    (p >>= g).evalWrites o s = p.evalWrites o s ++ match p.eval o s with
      | (.ok a, t) => (g a).evalWrites o t
      | (.error _, _) => [] := by
  show (p.bind g).evalWrites o s = _
  induction p generalizing s with
  | ret a => rfl
  | panic e => rfl
  | read k ih => exact ih s s
  | write f k ih =>
    show (s, f s) :: (k.bind g).evalWrites o (f s) = _
    rw [ih (f s)]
    rfl
  | await q k ih => exact ih (o q) s

/-- A run of a sequence is stopped in its first part, or in the second part when the first has
ended. -/
lemma mem_stops_bind {o : (q : Q) → A q} {p : Prog σ ε A α} {g : α → Prog σ ε A β} {s t : σ}
    (h : t ∈ (p >>= g).stops o s) :
    t ∈ p.stops o s ∨ ∃ a u, p.eval o s = (.ok a, u) ∧ t ∈ (g a).stops o u := by
  rw [stops, evalWrites_bind, List.map_append, ← List.cons_append, List.mem_append] at h
  rcases h with h | h
  · exact .inl h
  · rcases hp : p.eval o s with ⟨e | a, u⟩
    · rw [hp] at h
      cases h
    · rw [hp] at h
      exact .inr ⟨a, u, rfl, List.mem_cons_of_mem _ h⟩

/-- The last store a run can be stopped in is the one it ends in. -/
lemma getLast?_stops (o : (q : Q) → A q) (p : Prog σ ε A α) (s : σ) :
    (p.stops o s).getLast? = some (p.eval o s).2 := by
  induction p generalizing s with
  | ret a => rfl
  | panic e => rfl
  | read k ih => exact ih s s
  | write f k ih =>
    show (s :: k.stops o (f s)).getLast? = _
    rw [List.getLast?_cons, ih (f s)]
    rfl
  | await q k ih => exact ih (o q) s

/-- From `s` on, both programs do the same with the answers of `o`. -/
def Like (o : (q : Q) → A q) (s : σ) (p q : Prog σ ε A α) : Prop :=
  p.eval o s = q.eval o s ∧ p.evalWrites o s = q.evalWrites o s

namespace Like

variable {o : (q : Q) → A q} {s : σ} {p q r : Prog σ ε A α}

lemma refl : Like o s p p := ⟨rfl, rfl⟩

lemma symm (h : Like o s p q) : Like o s q p := ⟨h.1.symm, h.2.symm⟩

lemma trans (h : Like o s p q) (h' : Like o s q r) : Like o s p r :=
  ⟨h.1.trans h'.1, h.2.trans h'.2⟩

lemma bind {g : α → Prog σ ε A β} (h : Like o s p q) : Like o s (p >>= g) (q >>= g) := by
  constructor
  · rw [eval_bind, eval_bind, h.1]
  · rw [evalWrites_bind, evalWrites_bind, h.1, h.2]

lemma stops (h : Like o s p q) : p.stops o s = q.stops o s := by
  rw [Prog.stops, Prog.stops, h.2]

lemma ask_bind {q : Q} {g : A q → Prog σ ε A β} : Like o s (ask q >>= g) (g (o q)) := ⟨rfl, rfl⟩

lemma gets_bind {f : σ → α} {g : α → Prog σ ε A β} : Like o s (gets f >>= g) (g (f s)) := ⟨rfl, rfl⟩

/-- A first part that writes nothing. -/
lemma eval_bind {a : α} {g : α → Prog σ ε A β} (h : p.eval o s = (.ok a, s))
    (hw : p.evalWrites o s = []) : Like o s (p >>= g) (g a) := by
  constructor
  · rw [Prog.eval_bind, h]
  · rw [evalWrites_bind, h, hw, List.nil_append]

lemma modify_bind {f : σ → σ} {g g' : Unit → Prog σ ε A β} (h : Like o (f s) (g ()) (g' ())) :
    Like o s (modify f >>= g) (modify f >>= g') :=
  ⟨h.1, congrArg ((s, f s) :: ·) h.2⟩

end Like

/-- A run that goes on after its first part. -/
lemma eval_bind_ok {o : (q : Q) → A q} {p : Prog σ ε A α} {g : α → Prog σ ε A β} {s t : σ} {a : α}
    (h : p.eval o s = (.ok a, t)) : (p >>= g).eval o s = (g a).eval o t := by
  rw [eval_bind, h]

/-- The same for programs that can fail. -/
lemma eval_run_bind_ok {δ : Type} {o : (q : Q) → A q} {x : ExceptT δ (Prog σ ε A) α}
    {g : α → ExceptT δ (Prog σ ε A) β} {s t : σ} {a : α}
    (h : x.run.eval o s = (.ok (.ok a), t)) : (x >>= g).run.eval o s = (g a).run.eval o t := by
  rw [ExceptT.run_bind, eval_bind_ok h]

lemma eval_run_lift_bind_ok {δ : Type} {o : (q : Q) → A q} {p : Prog σ ε A α}
    {g : α → ExceptT δ (Prog σ ε A) β} {s t : σ} {a : α} (h : p.eval o s = (.ok a, t)) :
    (ExceptT.lift p >>= g).run.eval o s = (g a).run.eval o t := by
  refine eval_run_bind_ok ?_
  rw [ExceptT.run_lift, map_eq_pure_bind, eval_bind_ok h]
  rfl

section
variable {rely : σ → σ → Prop} {answer : (q : Q) → A q → σ → Prop}

/-- The answers of `o` have to be right where the run suspends. -/
lemma runs_eval_visits {o : (q : Q) → A q} {p : σ → Bool} (hrely : ∀ s, rely s s)
    (ho : ∀ q s, p s = true → answer q (o q) s) {x : Prog σ ε A α} {s : σ}
    (h : x.evalVisits o p s = true) : x.Runs rely answer s (x.eval o s).1 (x.eval o s).2 := by
  induction x generalizing s with
  | ret a => exact ⟨rfl, rfl⟩
  | panic e => exact ⟨rfl, rfl⟩
  | read k ih => exact ih s h
  | write f k ih => exact ih h
  | await q k ih =>
    rw [evalVisits, Bool.and_eq_true] at h
    exact ⟨s, hrely s, o q, ho q s h.1, ih (o q) h.2⟩

lemma runs_eval (hrely : ∀ s, rely s s) {o : (q : Q) → A q} (ho : ∀ q s, answer q (o q) s)
    (p : Prog σ ε A α) (s : σ) : p.Runs rely answer s (p.eval o s).1 (p.eval o s).2 := by
  have hv : ∀ s, p.evalVisits o (fun _ => true) s = true := by
    induction p with
    | ret a => exact fun _ => rfl
    | panic e => exact fun _ => rfl
    | read k ih => exact fun s => ih s s
    | write f k ih => exact fun s => ih (f s)
    | await q k ih => exact fun s => by rw [evalVisits, Bool.true_and, ih]
  exact runs_eval_visits hrely (fun q s _ => ho q s) (hv s)

/-- Where nobody else writes and `o` answers, the run is the one of `eval`. -/
lemma eval_of_runs {o : (q : Q) → A q} {p : Prog σ ε A α} {s t : σ} {r : Except ε α}
    (h : p.Runs (fun s t => t = s) (fun q a _ => a = o q) s r t) : p.eval o s = (r, t) := by
  induction p generalizing s with
  | ret a =>
    obtain ⟨rfl, rfl⟩ := h
    rfl
  | panic e =>
    obtain ⟨rfl, rfl⟩ := h
    rfl
  | read k ih => exact ih s h
  | write f k ih => exact ih h
  | await q k ih =>
    obtain ⟨u, rfl, a, rfl, h⟩ := h
    exact ih (o q) h

/-- A run of a sequence is one of its first part that goes on or stops there. -/
lemma runs_bind {p : Prog σ ε A α} {g : α → Prog σ ε A β} {s t : σ} {r : Except ε β} :
    (p >>= g).Runs rely answer s r t ↔
      (∃ a u, p.Runs rely answer s (.ok a) u ∧ (g a).Runs rely answer u r t) ∨
        ∃ e, r = .error e ∧ p.Runs rely answer s (.error e) t := by
  show (p.bind g).Runs rely answer s r t ↔ _
  induction p generalizing s with
  | ret a =>
    constructor
    · exact fun h => .inl ⟨a, s, ⟨rfl, rfl⟩, h⟩
    · rintro (⟨b, u, ⟨hb, rfl⟩, h⟩ | ⟨e, -, he, -⟩)
      · cases hb
        exact h
      · cases he
  | panic e =>
    constructor
    · rintro ⟨rfl, rfl⟩
      exact .inr ⟨e, rfl, rfl, rfl⟩
    · rintro (⟨b, u, ⟨hb, -⟩, -⟩ | ⟨e', rfl, he, rfl⟩)
      · cases hb
      · cases he
        exact ⟨rfl, rfl⟩
  | read k ih => exact ih s
  | write f k ih => exact ih
  | await q k ih =>
    constructor
    · rintro ⟨u, hu, a, ha, h⟩
      rcases (ih a).mp h with ⟨b, v, hv, hg⟩ | ⟨e, rfl, hp⟩
      · exact .inl ⟨b, v, ⟨u, hu, a, ha, hv⟩, hg⟩
      · exact .inr ⟨e, rfl, u, hu, a, ha, hp⟩
    · rintro (⟨b, v, ⟨u, hu, a, ha, hv⟩, h⟩ | ⟨e, rfl, u, hu, a, ha, h⟩)
      · exact ⟨u, hu, a, ha, (ih a).mpr (.inl ⟨b, v, hv, h⟩)⟩
      · exact ⟨u, hu, a, ha, (ih a).mpr (.inr ⟨e, rfl, h⟩)⟩

/-- A write of a sequence is one of its first part, or of the second when the first is over. -/
lemma writes_bind {p : Prog σ ε A α} {g : α → Prog σ ε A β} {s u v : σ} :
    (p >>= g).Writes rely answer s u v ↔ p.Writes rely answer s u v ∨
      ∃ a t, p.Runs rely answer s (.ok a) t ∧ (g a).Writes rely answer t u v := by
  show (p.bind g).Writes rely answer s u v ↔ _
  induction p generalizing s with
  | ret a =>
    constructor
    · exact fun h => .inr ⟨a, s, ⟨rfl, rfl⟩, h⟩
    · rintro (h | ⟨b, t, ⟨hb, rfl⟩, h⟩)
      · exact h.elim
      · cases hb
        exact h
  | panic e =>
    constructor
    · exact False.elim
    · rintro (h | ⟨b, t, ⟨hb, -⟩, -⟩)
      · exact h
      · cases hb
  | read k ih => exact ih s
  | write f k ih =>
    constructor
    · rintro (h | h)
      · exact .inl (.inl h)
      · exact (ih.mp h).imp_left .inr
    · rintro ((h | h) | h)
      · exact .inl h
      · exact .inr (ih.mpr (.inl h))
      · exact .inr (ih.mpr (.inr h))
  | await q k ih =>
    constructor
    · rintro ⟨t, ht, a, ha, h⟩
      rcases (ih a).mp h with h | ⟨b, x, hp, hg⟩
      · exact .inl ⟨t, ht, a, ha, h⟩
      · exact .inr ⟨b, x, ⟨t, ht, a, ha, hp⟩, hg⟩
    · rintro (⟨t, ht, a, ha, h⟩ | ⟨b, x, ⟨t, ht, a, ha, hp⟩, hg⟩)
      · exact ⟨t, ht, a, ha, (ih a).mpr (.inl h)⟩
      · exact ⟨t, ht, a, ha, (ih a).mpr (.inr ⟨b, x, hp, hg⟩)⟩

lemma writes_ask_bind {q : Q} {g : A q → Prog σ ε A β} {s u v : σ} :
    (ask q >>= g).Writes rely answer s u v ↔
      ∃ t, rely s t ∧ ∃ a, answer q a t ∧ (g a).Writes rely answer t u v := Iff.rfl

/-- A write of a loop is one of some turn. -/
lemma writes_forM {f : β → Prog σ ε A PUnit} {bs : List β} {s u v : σ}
    (h : (forM bs f).Writes rely answer s u v) :
    ∃ b ∈ bs, ∃ t, (f b).Writes rely answer t u v := by
  induction bs generalizing s with
  | nil => exact h.elim
  | cons b bs ih =>
    rw [List.forM_cons] at h
    rcases writes_bind.mp h with h | ⟨⟨⟩, t, -, h⟩
    · exact ⟨b, List.mem_cons_self, s, h⟩
    · obtain ⟨c, hc, t', h⟩ := ih h
      exact ⟨c, List.mem_cons_of_mem _ hc, t', h⟩

lemma Writes.mono {rely' : σ → σ → Prop} {answer' : (q : Q) → A q → σ → Prop}
    {p : Prog σ ε A α} {s u v : σ} (h : p.Writes rely answer s u v)
    (hrely : ∀ s t, rely s t → rely' s t) (hanswer : ∀ q a s, answer q a s → answer' q a s) :
    p.Writes rely' answer' s u v := by
  induction p generalizing s with
  | ret a => exact h
  | panic e => exact h
  | read k ih => exact ih s h
  | write f k ih => exact h.imp_right ih
  | await q k ih =>
    obtain ⟨t, ht, a, ha, h⟩ := h
    exact ⟨t, hrely s t ht, a, hanswer q a t ha, ih a h⟩

lemma writes_eval (hrely : ∀ s, rely s s) {o : (q : Q) → A q} (ho : ∀ q s, answer q (o q) s)
    {p : Prog σ ε A α} {s u v : σ} (h : (u, v) ∈ p.evalWrites o s) :
    p.Writes rely answer s u v := by
  induction p generalizing s with
  | ret a => cases h
  | panic e => cases h
  | read k ih => exact ih s h
  | write f k ih =>
    rcases List.mem_cons.mp h with h | h
    · exact .inl ⟨congrArg Prod.fst h, congrArg Prod.snd h⟩
    · exact .inr (ih h)
  | await q k ih => exact ⟨s, hrely s, o q, ho q s, ih (o q) h⟩

end

end Prog

end Coop
