import VeaValidator.Revert

/-!
No slice is out of bounds.

`decode_revert_reason` runs inside the handling of an error, on a text that a contract or a node has
chosen. Each of its indices is below a length that a guard has compared before, and each of its
offsets into the text is at a marker, so it comes to an end on every text.
-/

namespace VeaValidator

open Bytes

namespace Risky

variable {α β : Type} {a b : ℕ} {bytes : List UInt8} {R : α → Prop} {S : β → Prop}

/-- The code does not panic, and its value is in `R`. -/
def Ends (x : Risky α) (R : α → Prop) : Prop := ∃ v, x = .ok v ∧ R v

lemma Ends.pure {v : α} (h : R v) : Ends (pure v) R := ⟨v, rfl, h⟩

lemma Ends.bind {x : Risky α} {f : α → Risky β} (hx : Ends x R) (hf : ∀ v, R v → Ends (f v) S) :
    Ends (x >>= f) S := by
  obtain ⟨v, rfl, hv⟩ := hx
  exact hf v hv

lemma Ends.ite {c : Prop} [Decidable c] {x y : Risky α} (hx : c → Ends x R) (hy : ¬c → Ends y R) :
    Ends (if c then x else y) R := by
  by_cases h : c
  · rw [if_pos h]
    exact hx h
  · rw [if_neg h]
    exact hy h

lemma ends_add (h : a + b < 2 ^ 64) : Ends (add a b) (· = a + b) := ⟨a + b, if_pos h, rfl⟩

lemma ends_index (h : a < bytes.length) : Ends (index bytes a) fun _ => True :=
  ⟨bytes.get ⟨a, h⟩, dif_pos h, trivial⟩

lemma ends_slice (hab : a ≤ b) (hb : b ≤ bytes.length) :
    Ends (slice bytes a b) fun part => part.length = b - a := by
  refine ⟨(bytes.drop a).take (b - a), if_pos ⟨hab, hb⟩, ?_⟩
  show ((bytes.drop a).take (b - a)).length = b - a
  rw [List.length_take, List.length_drop]
  omega

lemma ends_unwrap {o : Option α} (h : o ≠ none) : Ends (unwrap o) fun v => o = some v := by
  obtain ⟨v, rfl⟩ := Option.ne_none_iff_exists'.mp h
  exact ⟨v, rfl, rfl⟩

lemma ends_fromBeSlice (h : bytes.length ≤ 32) : Ends (fromBeSlice bytes) fun _ => True := by
  have hlt : ofBe bytes < 2 ^ 256 := by
    calc ofBe bytes < 256 ^ bytes.length := ofBe_lt bytes
      _ ≤ 256 ^ 32 := Nat.pow_le_pow_right (by decide) h
      _ = 2 ^ 256 := by norm_num
  exact ⟨ofBe bytes, if_pos hlt, trivial⟩

/-- The word has to be inside, and the four bytes are a `u32`. -/
lemma ends_u32At {start : ℕ} (h : start + 32 ≤ bytes.length) (hfits : start + 31 < 2 ^ 64) :
    Ends (u32At bytes start) (· < 2 ^ 32) := by
  have hword : ∀ b₀ b₁ b₂ b₃ : UInt8, ofBe [b₀, b₁, b₂, b₃] < 2 ^ 32 := by
    intro b₀ b₁ b₂ b₃
    exact (ofBe_lt [b₀, b₁, b₂, b₃]).trans_eq (by norm_num)
  rw [u32At]
  refine Ends.bind (ends_add (by omega)) fun i₀ h₀ => ?_
  refine Ends.bind (ends_index (by omega)) fun b₀ _ => ?_
  refine Ends.bind (ends_add (by omega)) fun i₁ h₁ => ?_
  refine Ends.bind (ends_index (by omega)) fun b₁ _ => ?_
  refine Ends.bind (ends_add (by omega)) fun i₂ h₂ => ?_
  refine Ends.bind (ends_index (by omega)) fun b₂ _ => ?_
  refine Ends.bind (ends_add (by omega)) fun i₃ h₃ => ?_
  refine Ends.bind (ends_index (by omega)) fun b₃ _ => ?_
  exact .pure (hword b₀ b₁ b₂ b₃)

end Risky

namespace Revert

open Risky

variable {hex : Hex} {bytes : List UInt8}

lemma ends_selects (bytes selector : List UInt8) :
    Ends (selects bytes selector) fun _ => True := by
  rw [selects]
  refine Ends.ite (fun h => ?_) fun _ => .pure trivial
  exact Ends.bind (ends_slice (by omega) h) fun _ _ => .pure trivial

/-- **The nested guards.** The first one covers the offset, the second one the length, and the third
one the text. -/
lemma ends_errorString (bytes : List UInt8) : Ends (errorString bytes) fun _ => True := by
  unfold errorString
  refine Ends.bind (ends_selects bytes errorSelector) fun found _ => ?_
  refine Ends.ite (fun _ => ?_) fun _ => .pure trivial
  refine Ends.ite (fun hword => ?_) fun _ => .pure trivial
  refine Ends.bind (ends_u32At (by omega) (by omega)) fun offset hoffset => ?_
  refine Ends.bind (ends_add (by omega)) fun stop hstop => ?_
  refine Ends.ite (fun hguard => ?_) fun _ => .pure trivial
  refine Ends.bind (ends_add (by omega)) fun lenStart hstart => ?_
  refine Ends.bind (ends_u32At (by omega) (by omega)) fun len hlen => ?_
  refine Ends.bind (ends_add (by omega)) fun strStart hstr => ?_
  refine Ends.bind (ends_add (by omega)) fun stop' hstop' => ?_
  refine Ends.ite (fun hguard' => ?_) fun _ => .pure trivial
  refine Ends.bind (ends_add (by omega)) fun stop'' hstop'' => ?_
  exact Ends.bind (ends_slice (by omega) (by omega)) fun _ _ => .pure trivial

lemma ends_panicCode (bytes : List UInt8) : Ends (panicCode bytes) fun _ => True := by
  unfold panicCode
  refine Ends.bind (ends_selects bytes panicSelector) fun found _ => ?_
  refine Ends.ite (fun _ => ?_) fun _ => .pure trivial
  refine Ends.ite (fun hword => ?_) fun _ => .pure trivial
  refine Ends.bind (ends_slice (by omega) hword) fun code hcode => ?_
  exact Ends.bind (ends_fromBeSlice hcode.le) fun _ _ => .pure trivial

lemma ends_knownError (hex : Hex) (bytes selector : List UInt8) {table : List (String × ℕ × Word)}
    (htable : ∀ x ∈ table, x.2.1 ≤ 32) :
    Ends (knownError hex bytes selector table) fun _ => True := by
  induction table with
  | nil => exact .pure trivial
  | cons x table ih =>
    obtain ⟨sig, paramLen, hash⟩ := x
    have hlen : paramLen ≤ 32 := htable _ List.mem_cons_self
    have hrest := ih fun x hx => htable x (List.mem_cons_of_mem _ hx)
    have hname : (sig.toList.splitOn '(').head? ≠ none := by
      rw [ne_eq, List.head?_eq_none_iff]
      exact List.splitOnP_ne_nil _ _
    rw [knownError]
    refine Ends.bind (ends_slice (by omega) (by rw [length_toBe]; omega)) fun expected _ => ?_
    refine Ends.ite (fun _ => ?_) fun _ => hrest
    refine Ends.ite (fun _ => .pure trivial) fun _ => ?_
    refine Ends.bind (ends_add (by omega)) fun stop hstop => ?_
    refine Ends.ite (fun hguard => ?_) fun _ => hrest
    refine Ends.bind (ends_unwrap hname) fun name _ => ?_
    refine Ends.bind (ends_add (by omega)) fun stop' hstop' => ?_
    exact Ends.bind (ends_slice (by omega) (by omega)) fun _ _ => .pure trivial

lemma ends_reasonOf (hex : Hex) (hexData : String) (bytes : List UInt8) :
    Ends (reasonOf hex hexData bytes) fun _ => True := by
  have hselector : ∀ part : List UInt8, part.length = 4 - 0 → tryInto 4 part ≠ none := by
    intro part hpart
    rw [tryInto, if_pos hpart]
    exact Option.some_ne_none part
  unfold reasonOf
  refine Ends.bind (ends_errorString bytes) fun text _ => ?_
  cases text with
  | some reason => exact .pure trivial
  | none =>
    refine Ends.bind (ends_panicCode bytes) fun code _ => ?_
    cases code with
    | some reason => exact .pure trivial
    | none =>
      refine Ends.ite (fun hfour => ?_) fun _ => .pure trivial
      refine Ends.bind (ends_slice (by omega) hfour) fun part hpart => ?_
      refine Ends.bind (ends_unwrap (hselector part hpart)) fun selector _ => ?_
      refine Ends.bind (ends_knownError hex bytes selector (by decide)) fun reason _ => ?_
      cases reason with
      | some reason => exact .pure trivial
      | none => exact .pure trivial

/-- **The markers.** What is cut out of the text begins behind the first marker and ends before a
quotation mark, so both ends are between two characters. -/
lemma ends_hexDataOf (errMsg : Str) : Ends (hexDataOf errMsg) fun found =>
    ∀ hexData, found = some hexData →
      ∃ pre post, errMsg.text = pre ++ dataPrefix ++ hexData ++ "\"" ++ post := by
  have hsize := errMsg.fits
  unfold hexDataOf
  cases hfind : find (ofText dataPrefix) (ofText errMsg.text) with
  | none => exact .pure nofun
  | some found =>
    obtain ⟨pre, rest, htext, rfl⟩ := find_ofText (by decide) hfind
    have hrest : errMsg.text = (pre ++ dataPrefix) ++ rest ++ "" := by
      rw [htext, String.append_empty]
    rw [htext] at hsize
    simp only [String.utf8ByteSize_append] at hsize
    refine Ends.bind (ends_add (by omega)) fun start hstart => ?_
    have hslice : strSlice errMsg.text start errMsg.text.utf8ByteSize = .ok rest := by
      rw [hrest]
      refine strSlice_ok ?_ ?_
      · rw [hstart, String.utf8ByteSize_append]
      · rw [String.append_empty, String.utf8ByteSize_append]
    rw [hslice, ok_bind]
    cases hquote : find [0x22] (ofText rest) with
    | none => exact .pure nofun
    | some quote =>
      rw [← ofText_quote] at hquote
      obtain ⟨hexData, post, rfl, rfl⟩ := find_ofText (by decide) hquote
      have hcut : errMsg.text = (pre ++ dataPrefix) ++ hexData ++ ("\"" ++ post) := by
        rw [htext]
        simp only [String.append_assoc]
      simp only [String.utf8ByteSize_append] at hsize
      refine Ends.bind (ends_add (by omega)) fun stop hstop => ?_
      have hdata : strSlice errMsg.text start stop = .ok hexData := by
        rw [hcut]
        refine strSlice_ok ?_ ?_
        · rw [hstart, String.utf8ByteSize_append]
        · rw [hstop, hstart, String.utf8ByteSize_append]
          omega
      rw [hdata, ok_bind]
      refine .pure fun found hfound => ?_
      obtain rfl := Option.some.inj hfound
      refine ⟨pre, post, ?_⟩
      rw [hcut]
      simp only [String.append_assoc]

lemma ends_decodeRevertReason (hex : Hex) (errMsg : Str) :
    Ends (decodeRevertReason hex errMsg) fun _ => True := by
  unfold decodeRevertReason
  refine Ends.bind (ends_hexDataOf errMsg) fun found _ => ?_
  cases found with
  | none => exact .pure trivial
  | some hexData =>
    refine Ends.ite (fun _ => .pure trivial) fun _ => Ends.ite (fun _ => .pure trivial) fun _ => ?_
    cases hex.decode hexData with
    | none => exact .pure trivial
    | some bytes => exact ends_reasonOf hex hexData bytes

/-- **`decode_revert_reason` never panics**, whatever the text of the error is. -/
theorem decodeRevertReason_never_panics (hex : Hex) (errMsg : Str) :
    ∃ reason, decodeRevertReason hex errMsg = .ok reason := by
  obtain ⟨reason, hreason, -⟩ := ends_decodeRevertReason hex errMsg
  exact ⟨reason, hreason⟩

/-- **A refused transaction is an error**, and never a panic. -/
theorem sendTx_refused (hex : Hex) (e : Str) (action routeName : String) :
    ∃ text, sendTx hex (.refused e) action routeName = .ok (.error text) := by
  obtain ⟨reason, hreason, -⟩ := ends_decodeRevertReason hex e
  unfold sendTx
  dsimp only
  rw [hreason, ok_bind]
  cases reason with
  | none => exact ⟨e.text, rfl⟩
  | some reason => exact ⟨_, rfl⟩

end Revert

end VeaValidator
