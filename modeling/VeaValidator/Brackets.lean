import Mathlib.Data.List.Basic

/-!
Texts with brackets and strings.

Outside of the strings of a text its brackets match. A scan that counts the open ones sees that a
text in brackets is never closed before its end: what is left of it when it is cut off is not
balanced.
-/

namespace Brackets

/-- What a letter is for. -/
inductive Kind
  | plain | quote | escape | opening | closing
  deriving DecidableEq

variable {α : Type*} (kind : α → Kind)

/-- The letters of a string. An escape takes the next letter with it. -/
inductive Quoted : List α → Prop
  | nil : Quoted []
  | letter {a : α} {l : List α} (hq : kind a ≠ .quote) (he : kind a ≠ .escape) (h : Quoted l) :
    Quoted (a :: l)
  | escaped {a b : α} {l : List α} (ha : kind a = .escape) (h : Quoted l) : Quoted (a :: b :: l)

/-- The brackets outside of the strings match. -/
inductive Balanced : List α → Prop
  | nil : Balanced []
  | plain {a : α} {l : List α} (ha : kind a = .plain) (h : Balanced l) : Balanced (a :: l)
  | string {a b : α} {q l : List α} (ha : kind a = .quote) (hb : kind b = .quote)
    (hq : Quoted kind q) (h : Balanced l) : Balanced (a :: q ++ b :: l)
  | group {a b : α} {m l : List α} (ha : kind a = .opening) (hb : kind b = .closing)
    (hm : Balanced m) (h : Balanced l) : Balanced (a :: m ++ b :: l)

/-- A text in brackets. -/
inductive Group : List α → Prop
  | mk {a b : α} {m : List α} (ha : kind a = .opening) (hb : kind b = .closing)
    (hm : Balanced kind m) : Group (a :: m ++ [b])

/-! ### The scan -/

inductive Mode
  | outside | inside | escaped
  deriving DecidableEq

structure Scan where
  depth : ℕ
  mode : Mode
  deriving DecidableEq

def step (s : Scan) (a : α) : Scan :=
  match s.mode, kind a with
  | .outside, .quote => { s with mode := .inside }
  | .outside, .opening => { s with depth := s.depth + 1 }
  | .outside, .closing => { s with depth := s.depth - 1 }
  | .outside, _ => s
  | .inside, .quote => { s with mode := .outside }
  | .inside, .escape => { s with mode := .escaped }
  | .inside, _ => s
  | .escaped, _ => { s with mode := .inside }

def run (s : Scan) (l : List α) : Scan := l.foldl (step kind) s

variable {kind} {a b : α} {l m p q : List α} {d : ℕ}

@[simp] lemma run_nil (s : Scan) : run kind s [] = s := rfl

@[simp] lemma run_cons (s : Scan) (a : α) (l : List α) :
    run kind s (a :: l) = run kind (step kind s a) l := rfl

lemma run_append (s : Scan) (l m : List α) :
    run kind s (l ++ m) = run kind (run kind s l) m := List.foldl_append

lemma step_plain (ha : kind a = .plain) : step kind ⟨d, .outside⟩ a = ⟨d, .outside⟩ := by
  simp [step, ha]

lemma step_quote (ha : kind a = .quote) : step kind ⟨d, .outside⟩ a = ⟨d, .inside⟩ := by
  simp [step, ha]

lemma step_opening (ha : kind a = .opening) : step kind ⟨d, .outside⟩ a = ⟨d + 1, .outside⟩ := by
  simp [step, ha]

lemma step_closing (ha : kind a = .closing) : step kind ⟨d + 1, .outside⟩ a = ⟨d, .outside⟩ := by
  simp [step, ha]

lemma step_unquote (ha : kind a = .quote) : step kind ⟨d, .inside⟩ a = ⟨d, .outside⟩ := by
  simp [step, ha]

lemma step_letter (hq : kind a ≠ .quote) (he : kind a ≠ .escape) :
    step kind ⟨d, .inside⟩ a = ⟨d, .inside⟩ := by
  unfold step
  cases hk : kind a with
  | quote => exact absurd hk hq
  | escape => exact absurd hk he
  | _ => rfl

lemma step_escape (ha : kind a = .escape) : step kind ⟨d, .inside⟩ a = ⟨d, .escaped⟩ := by
  simp [step, ha]

lemma Quoted.run (h : Quoted kind q) : run kind ⟨d, .inside⟩ q = ⟨d, .inside⟩ := by
  induction h with
  | nil => rfl
  | letter hq he h ih => rw [run_cons, step_letter hq he, ih]
  | escaped ha h ih =>
    rw [run_cons, step_escape ha, run_cons]
    exact ih

/-- A string that is cut off is still open. -/
lemma Quoted.depth_of_prefix (h : Quoted kind q) (hp : p <+: q) :
    (Brackets.run kind ⟨d, .inside⟩ p).depth = d := by
  induction h generalizing p with
  | nil =>
    rw [List.prefix_nil.mp hp]
    rfl
  | letter hq he h ih =>
    rcases List.prefix_cons_iff.mp hp with rfl | ⟨t, rfl, ht⟩
    · rfl
    · rw [run_cons, step_letter hq he, ih ht]
  | escaped ha h ih =>
    rcases List.prefix_cons_iff.mp hp with rfl | ⟨t, rfl, ht⟩
    · rfl
    rw [run_cons, step_escape ha]
    rcases List.prefix_cons_iff.mp ht with rfl | ⟨t', rfl, ht'⟩
    · rfl
    · rw [run_cons]
      exact ih ht'

/-- After a balanced text the scan is where it has been. -/
lemma Balanced.run (h : Balanced kind l) : run kind ⟨d, .outside⟩ l = ⟨d, .outside⟩ := by
  induction h generalizing d with
  | nil => rfl
  | plain ha h ih => rw [run_cons, step_plain ha, ih]
  | string ha hb hq h ih =>
    rw [List.cons_append, run_cons, step_quote ha, run_append, hq.run, run_cons, step_unquote hb, ih]
  | group ha hb hm h ihm ih =>
    rw [List.cons_append, run_cons, step_opening ha, run_append, ihm, run_cons, step_closing hb, ih]

/-- The first part of a text ends in its first half or in its second. -/
lemma prefix_append_cases (h : p <+: l ++ m) : p <+: l ∨ ∃ p', p = l ++ p' ∧ p' <+: m := by
  rcases List.prefix_or_prefix_of_prefix h (List.prefix_append l m) with hp | ⟨p', rfl⟩
  · exact .inl hp
  · exact .inr ⟨p', rfl, (List.prefix_append_right_inj l).mp h⟩

/-- No part of a balanced text closes a bracket it has not opened. -/
lemma Balanced.le_depth (h : Balanced kind l) (hp : p <+: l) :
    d ≤ (Brackets.run kind ⟨d, .outside⟩ p).depth := by
  induction h generalizing p d with
  | nil =>
    rw [List.prefix_nil.mp hp]
    exact Nat.le_refl d
  | plain ha h ih =>
    rcases List.prefix_cons_iff.mp hp with rfl | ⟨t, rfl, ht⟩
    · exact Nat.le_refl d
    · rw [run_cons, step_plain ha]
      exact ih ht
  | string ha hb hq h ih =>
    rcases List.prefix_cons_iff.mp hp with rfl | ⟨t, rfl, ht⟩
    · exact Nat.le_refl d
    rw [run_cons, step_quote ha]
    rcases prefix_append_cases ht with ht | ⟨t', rfl, ht'⟩
    · exact Nat.le_of_eq (hq.depth_of_prefix ht).symm
    rw [run_append, hq.run]
    rcases List.prefix_cons_iff.mp ht' with rfl | ⟨r, rfl, hr⟩
    · exact Nat.le_refl d
    · rw [run_cons, step_unquote hb]
      exact ih hr
  | group ha hb hm h ihm ih =>
    rcases List.prefix_cons_iff.mp hp with rfl | ⟨t, rfl, ht⟩
    · exact Nat.le_refl d
    rw [run_cons, step_opening ha]
    rcases prefix_append_cases ht with ht | ⟨t', rfl, ht'⟩
    · exact Nat.le_trans (Nat.le_succ d) (ihm ht)
    rw [run_append, hm.run]
    rcases List.prefix_cons_iff.mp ht' with rfl | ⟨r, rfl, hr⟩
    · exact Nat.le_succ d
    · rw [run_cons, step_closing hb]
      exact ih hr

/-- **A text in brackets cannot be cut off.** What is left, if anything is, is not balanced. -/
theorem Group.not_balanced (h : Group kind l) (hp : p <+: l) (hne : p ≠ l) (hnil : p ≠ []) :
    ¬Balanced kind p := by
  obtain ⟨ha, hb, hm⟩ := h
  rcases List.prefix_cons_iff.mp hp with rfl | ⟨t, rfl, ht⟩
  · exact absurd rfl hnil
  rcases List.prefix_concat_iff.mp ht with rfl | ht
  · exact absurd rfl hne
  intro hbalanced
  have hopen := hm.le_depth (d := 1) ht
  have hclosed := hbalanced.run (d := 0)
  rw [run_cons, step_opening ha] at hclosed
  rw [hclosed] at hopen
  exact Nat.not_succ_le_zero 0 hopen

/-! ### Balanced texts from balanced parts -/

lemma Balanced.append (h : Balanced kind l) (h' : Balanced kind m) : Balanced kind (l ++ m) := by
  induction h with
  | nil => exact h'
  | plain ha h ih => exact .plain ha ih
  | string ha hb hq h ih =>
    rw [List.append_assoc]
    exact .string ha hb hq ih
  | group ha hb hm h ihm ih =>
    rw [List.append_assoc]
    exact .group ha hb hm ih

lemma Group.balanced (h : Group kind l) : Balanced kind l := by
  obtain ⟨ha, hb, hm⟩ := h
  exact .group ha hb hm .nil

lemma Group.ne_nil (h : Group kind l) : l ≠ [] := by
  obtain ⟨ha, hb, hm⟩ := h
  exact List.cons_ne_nil _ _

/-! ### A check -/

section
variable (kind)

/-- A letter that has no place outside of a string. -/
def stray (s : Scan) (a : α) : Bool :=
  s.mode = .outside && (kind a = .escape || kind a = .closing && s.depth = 0)

/-- Whether the rest of a text closes what is open. -/
def check (s : Scan) : List α → Bool
  | [] => s = ⟨0, .outside⟩
  | a :: l => !stray kind s a && check (step kind s a) l

/-- Balanced texts, with the closing brackets of `d` open ones between them. -/
def Closes : ℕ → List α → Prop
  | 0, l => Balanced kind l
  | d + 1, l => ∃ m b l', l = m ++ b :: l' ∧ Balanced kind m ∧ kind b = .closing ∧ Closes d l'

end

lemma Closes.append (hm : Balanced kind m) (h : Closes kind d l) : Closes kind d (m ++ l) := by
  cases d with
  | zero => exact hm.append h
  | succ d =>
    obtain ⟨m', b, l', rfl, hm', hb, h⟩ := h
    exact ⟨m ++ m', b, l', (List.append_assoc _ _ _).symm, hm.append hm', hb, h⟩

/-- The rest of a string, and of the text after it. -/
def Unquotes (kind : α → Kind) (d : ℕ) (l : List α) : Prop :=
  ∃ q b l', l = q ++ b :: l' ∧ Quoted kind q ∧ kind b = .quote ∧ Closes kind d l'

lemma Unquotes.letter (hq : kind a ≠ .quote) (he : kind a ≠ .escape) (h : Unquotes kind d l) :
    Unquotes kind d (a :: l) := by
  obtain ⟨q, b, l', rfl, hquoted, hb, h⟩ := h
  exact ⟨a :: q, b, l', rfl, .letter hq he hquoted, hb, h⟩

lemma Unquotes.escaped (ha : kind a = .escape) (h : Unquotes kind d l) :
    Unquotes kind d (a :: b :: l) := by
  obtain ⟨q, b', l', rfl, hquoted, hb', h⟩ := h
  exact ⟨a :: b :: q, b', l', rfl, .escaped ha hquoted, hb', h⟩

/-- What the rest of a text has to be. -/
def Completes (kind : α → Kind) (s : Scan) (l : List α) : Prop :=
  match s.mode with
  | .outside => Closes kind s.depth l
  | .inside => Unquotes kind s.depth l
  | .escaped => ∃ a l', l = a :: l' ∧ Unquotes kind s.depth l'

lemma completes_outside (hstray : stray kind ⟨d, .outside⟩ a = false)
    (h : Completes kind (step kind ⟨d, .outside⟩ a) l) : Completes kind ⟨d, .outside⟩ (a :: l) := by
  cases hk : kind a with
  | plain =>
    rw [step_plain hk] at h
    exact Closes.append (m := [a]) (.plain hk .nil) h
  | quote =>
    rw [step_quote hk] at h
    obtain ⟨q, b, l', rfl, hq, hb, hl'⟩ := h
    have hstring : Balanced kind (a :: q ++ [b]) := .string hk hb hq .nil
    have hrest : Closes kind d (a :: q ++ [b] ++ l') := Closes.append hstring hl'
    rwa [List.append_assoc] at hrest
  | opening =>
    rw [step_opening hk] at h
    obtain ⟨m, b, l', rfl, hm, hb, hl'⟩ := h
    have hgroup : Balanced kind (a :: m ++ [b]) := .group hk hb hm .nil
    have hrest : Closes kind d (a :: m ++ [b] ++ l') := Closes.append hgroup hl'
    rwa [List.append_assoc] at hrest
  | closing =>
    cases d with
    | zero => simp [stray, hk] at hstray
    | succ d =>
      rw [step_closing hk] at h
      exact ⟨[], a, l, rfl, .nil, hk, h⟩
  | escape => simp [stray, hk] at hstray

lemma completes_inside (h : Completes kind (step kind ⟨d, .inside⟩ a) l) :
    Completes kind ⟨d, .inside⟩ (a :: l) := by
  by_cases hq : kind a = .quote
  · rw [step_unquote hq] at h
    exact ⟨[], a, l, rfl, .nil, hq, h⟩
  by_cases he : kind a = .escape
  · rw [step_escape he] at h
    obtain ⟨b, l, rfl, hl⟩ := h
    exact hl.escaped he
  · rw [step_letter hq he] at h
    exact Unquotes.letter hq he h

lemma completes_of_check {s : Scan} (h : check kind s l = true) : Completes kind s l := by
  induction l generalizing s with
  | nil =>
    obtain rfl : s = ⟨0, .outside⟩ := by simpa [check] using h
    exact .nil
  | cons a l ih =>
    rw [check, Bool.and_eq_true, Bool.not_eq_true'] at h
    obtain ⟨hstray, hrest⟩ := h
    obtain ⟨d, mode⟩ := s
    cases mode with
    | outside => exact completes_outside hstray (ih hrest)
    | inside => exact completes_inside (ih hrest)
    | escaped => exact ⟨a, l, rfl, ih hrest⟩

/-- Whoever passes the check is balanced. -/
lemma balanced_of_check (h : check kind ⟨0, .outside⟩ l = true) : Balanced kind l :=
  completes_of_check h

end Brackets
