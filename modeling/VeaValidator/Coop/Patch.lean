import Mathlib.Data.Option.Basic

/-!
Registers, and writes of which the last one wins.

A patch gives some of the registers a value and leaves the others as they are. After a list of
patches a register holds what the last patch that speaks of it says, whatever it has held before,
so patches that are made again after others change nothing that these do not speak of.
-/

namespace Coop

variable {κ : Type} {V : κ → Type}

/-- The values a write gives to some of the registers. -/
abbrev Patch (V : κ → Type) : Type := (k : κ) → Option (V k)

namespace Patch

/-- The registers after a write. -/
def apply (p : Patch V) (s : (k : κ) → V k) : (k : κ) → V k := fun k => (p k).getD (s k)

/-- The registers after some writes, the first one first. -/
def run (ps : List (Patch V)) (s : (k : κ) → V k) : (k : κ) → V k :=
  ps.foldl (fun s p => p.apply s) s

/-- What the last write that speaks of a register says. -/
def last : List (Patch V) → Patch V
  | [], _ => none
  | p :: ps, k => (last ps k).or (p k)

variable {p : Patch V} {ps qs : List (Patch V)} {s t : (k : κ) → V k} {k : κ} {v : V k}

@[simp] lemma run_nil : run [] s = s := rfl

@[simp] lemma run_cons : run (p :: ps) s = run ps (p.apply s) := rfl

@[simp] lemma last_nil : last ([] : List (Patch V)) k = none := rfl

@[simp] lemma last_cons : last (p :: ps) k = (last ps k).or (p k) := rfl

lemma last_append : last (ps ++ qs) k = (last qs k).or (last ps k) := by
  induction ps with
  | nil => simp
  | cons p ps ih => rw [List.cons_append, last_cons, ih, last_cons, Option.or_assoc]

/-- Nobody writes to the register. -/
lemma last_eq_none_iff : last ps k = none ↔ ∀ p ∈ ps, p k = none := by
  induction ps with
  | nil => simp
  | cons p ps ih => rw [last_cons, Option.or_eq_none_iff, ih, List.forall_mem_cons, and_comm]

lemma apply_of_none (h : p k = none) : p.apply s k = s k := by
  rw [apply, h, Option.getD_none]

/-- **The last write wins.** -/
lemma run_eq (ps : List (Patch V)) (s : (k : κ) → V k) (k : κ) :
    run ps s k = (last ps k).getD (s k) := by
  induction ps generalizing s with
  | nil => rfl
  | cons p ps ih =>
    rw [run_cons, ih, last_cons, apply]
    cases last ps k with
    | none => rw [Option.none_or, Option.getD_none]
    | some v => rfl

lemma run_of_none (h : last ps k = none) : run ps s k = s k := by
  rw [run_eq, h, Option.getD_none]

/-- Only what the writes do not speak of matters before them. -/
lemma run_congr (h : last ps k = none → s k = t k) : run ps s k = run ps t k := by
  rw [run_eq, run_eq]
  cases hk : last ps k with
  | none => exact h hk
  | some v => rfl

/-- **Writes made before others are lost in them, or in place already.** -/
lemma run_append_eq_iff : run (ps ++ qs) s k = run qs s k ↔
    (last qs k = none → ∀ v, last ps k = some v → s k = v) := by
  rw [run_eq, run_eq, last_append]
  cases last qs k with
  | some u => simp
  | none =>
    rw [Option.none_or, Option.getD_none]
    cases last ps k with
    | none => simp
    | some v =>
      rw [Option.getD_some]
      constructor
      · rintro hv - u hu
        obtain rfl := Option.some.inj hu
        exact hv.symm
      · exact fun h => (h rfl v rfl).symm

end Patch

end Coop
