import Mathlib.Data.List.Basic
import Mathlib.Tactic.IntervalCases
import Mathlib.Tactic.Ring

/-!
Texts and byte strings: the search for a part, a prefix that is trimmed, big-endian numbers, and
hexadecimal digits.
-/

namespace Bytes

/-! ### The search for a part -/

section
variable {α : Type*} [DecidableEq α]

/-- The place of the first occurrence of `p`. -/
def find (p : List α) : List α → Option ℕ
  | [] => if p <+: [] then some 0 else none
  | a :: l => if p <+: a :: l then some 0 else (find p l).map (· + 1)

variable {p l r : List α} {a : α} {i : ℕ}

/-- What is found lies inside. -/
lemma find_le (h : find p l = some i) : i + p.length ≤ l.length := by
  induction l generalizing i with
  | nil =>
    unfold find at h
    split at h
    · next hp =>
      cases h
      have := hp.length_le
      omega
    · cases h
  | cons a l ih =>
    unfold find at h
    split at h
    · next hp =>
      cases h
      have := hp.length_le
      omega
    · obtain ⟨j, hj, rfl⟩ := Option.map_eq_some_iff.mp h
      have := ih hj
      rw [List.length_cons]
      omega

/-- What is found is there. -/
lemma find_prefix (h : find p l = some i) : p <+: l.drop i := by
  induction l generalizing i with
  | nil =>
    unfold find at h
    split at h
    · next hp =>
      cases h
      exact hp
    · cases h
  | cons a l ih =>
    unfold find at h
    split at h
    · next hp =>
      cases h
      exact hp
    · obtain ⟨j, hj, rfl⟩ := Option.map_eq_some_iff.mp h
      exact ih hj

/-- More text at the end does not move the first occurrence. -/
lemma find_append (h : find p l = some i) (r : List α) : find p (l ++ r) = some i := by
  induction l generalizing i with
  | nil =>
    unfold find at h
    split at h
    · next hp =>
      cases h
      have hnil : p = [] := List.prefix_nil.mp hp
      subst hnil
      cases r <;> rfl
    · cases h
  | cons a l ih =>
    rw [List.cons_append, find]
    unfold find at h
    split at h
    · next hp =>
      cases h
      have hp' : p <+: a :: (l ++ r) := hp.trans (List.prefix_append (a :: l) r)
      rw [if_pos hp']
    · next hp =>
      obtain ⟨j, hj, rfl⟩ := Option.map_eq_some_iff.mp h
      have hle := find_le hj
      have hnot : ¬p <+: a :: (l ++ r) := by
        intro hp'
        refine hp (List.prefix_of_prefix_length_le hp' (List.prefix_append (a :: l) r) ?_)
        rw [List.length_cons]
        omega
      rw [if_neg hnot, ih hj]
      rfl

/-- The first occurrence of a letter that the text before it does not have. -/
lemma find_singleton (h : a ∉ l) : find [a] (l ++ a :: r) = some l.length := by
  induction l with
  | nil => exact if_pos (List.prefix_append [a] r)
  | cons b l ih =>
    have hb : ¬[a] <+: b :: (l ++ a :: r) := by
      intro hp
      have hab := (List.cons_prefix_cons.mp hp).1
      exact h (hab ▸ List.mem_cons_self)
    rw [List.cons_append, find, if_neg hb, ih fun hm => h (List.mem_cons_of_mem b hm)]
    rfl

/-- `l` without the parts `p` it begins with. -/
def trimStartMatches (p l : List α) : List α :=
  if _ : p ≠ [] ∧ p <+: l then trimStartMatches p (l.drop p.length) else l
termination_by l.length
decreasing_by
  next h =>
  have hpos : 0 < p.length := List.length_pos_iff.mpr h.1
  have hle : p.length ≤ l.length := h.2.length_le
  rw [List.length_drop]
  omega

/-- One part is trimmed when there is no second one behind it. -/
lemma trimStartMatches_append (hp : p ≠ []) (h : ¬p <+: l) : trimStartMatches p (p ++ l) = l := by
  have hstop : trimStartMatches p l = l := by
    rw [trimStartMatches, dif_neg fun hl => h hl.2]
  rw [trimStartMatches, dif_pos ⟨hp, List.prefix_append p l⟩, List.drop_left, hstop]

end

/-! ### Big-endian numbers -/

/-- The last `k` bytes of a number. -/
def toBe : ℕ → ℕ → List UInt8
  | 0, _ => []
  | k + 1, n => toBe k (n / 256) ++ [UInt8.ofNat n]

/-- The number the bytes stand for. -/
def ofBe (l : List UInt8) : ℕ := l.foldl (fun n b => 256 * n + b.toNat) 0

@[simp] lemma length_toBe (k n : ℕ) : (toBe k n).length = k := by
  induction k generalizing n with
  | zero => rfl
  | succ k ih => rw [toBe, List.length_append, ih, List.length_singleton]

lemma ofBe_toBe (k n : ℕ) : ofBe (toBe k n) = n % 256 ^ k := by
  induction k generalizing n with
  | zero => rw [pow_zero, Nat.mod_one]; rfl
  | succ k ih =>
    have hstep : ofBe (toBe (k + 1) n) = 256 * ofBe (toBe k (n / 256)) + (UInt8.ofNat n).toNat := by
      rw [toBe, ofBe, List.foldl_append]
      rfl
    have hlast : (UInt8.ofNat n).toNat = n % 256 := UInt8.toNat_ofNat'
    rw [hstep, ih, hlast, pow_succ, mul_comm (256 ^ k), Nat.mod_mul]
    ring

lemma ofBe_lt (l : List UInt8) : ofBe l < 256 ^ l.length := by
  have hstep : ∀ n, l.foldl (fun n b => 256 * n + b.toNat) n < (n + 1) * 256 ^ l.length := by
    induction l with
    | nil =>
      intro n
      rw [List.foldl_nil, List.length_nil, pow_zero, mul_one]
      exact Nat.lt_succ_self n
    | cons b l ih =>
      intro n
      have hb : b.toNat < 256 := b.toNat_lt
      have hle : 256 * n + b.toNat + 1 ≤ (n + 1) * 256 := by omega
      calc (b :: l).foldl (fun n b => 256 * n + b.toNat) n
          < (256 * n + b.toNat + 1) * 256 ^ l.length := ih _
        _ ≤ (n + 1) * 256 * 256 ^ l.length := Nat.mul_le_mul_right _ hle
        _ = (n + 1) * 256 ^ (b :: l).length := by rw [List.length_cons, pow_succ]; ring
  have h := hstep 0
  rwa [zero_add, one_mul] at h

/-- The end of a long number is the short one. -/
lemma drop_toBe (k j n : ℕ) : (toBe (k + j) n).drop k = toBe j n := by
  induction j generalizing n with
  | zero =>
    refine List.drop_eq_nil_of_le ?_
    rw [length_toBe]
    omega
  | succ j ih =>
    rw [← Nat.add_assoc, toBe, List.drop_append_of_le_length (by rw [length_toBe]; omega), ih, toBe]

/-! ### Hexadecimal digits -/

/-- The two digits of a byte. -/
def hexPair (b : UInt8) : List Char :=
  [Nat.digitChar (b.toNat / 16), Nat.digitChar (b.toNat % 16)]

/-- The lowercase digits of a byte string. -/
def lowerHex (bs : List UInt8) : String := String.ofList (bs.flatMap hexPair)

/-- Digits only. -/
def Digits (cs : List Char) : Prop := ∀ c ∈ cs, ∃ d < 16, c = Nat.digitChar d

lemma digits_toDigits (n : ℕ) : Digits (Nat.toDigits 16 n) := by
  induction n using Nat.strong_induction_on with
  | _ n ih =>
    rw [Nat.toDigits_eq_if (by decide)]
    intro c hc
    split at hc
    · next hlt => exact ⟨n, hlt, List.mem_singleton.mp hc⟩
    · next hge =>
      rcases List.mem_append.mp hc with hc | hc
      · exact ih (n / 16) (by omega) c hc
      · exact ⟨n % 16, Nat.mod_lt n (by decide), List.mem_singleton.mp hc⟩

lemma digits_hexPair (bs : List UInt8) : Digits (bs.flatMap hexPair) := by
  intro c hc
  obtain ⟨b, -, hc⟩ := List.mem_flatMap.mp hc
  have hb : b.toNat < 256 := b.toNat_lt
  rw [hexPair, List.mem_cons, List.mem_singleton] at hc
  rcases hc with rfl | rfl
  · exact ⟨b.toNat / 16, by omega, rfl⟩
  · exact ⟨b.toNat % 16, by omega, rfl⟩

/-- **The prefix `0x` is trimmed once**, because no digit is an `x`. -/
lemma trimStartMatches_digits {cs : List Char} (h : Digits cs) :
    trimStartMatches ['0', 'x'] ('0' :: 'x' :: cs) = cs := by
  refine trimStartMatches_append (p := ['0', 'x']) (by decide) ?_
  rintro ⟨r, rfl⟩
  obtain ⟨d, hd, hx⟩ := h 'x' (by simp)
  interval_cases d <;> exact absurd hx (by decide)

/-! ### The bytes of a text -/

/-- The UTF-8 bytes of a text. -/
def ofText (s : String) : List UInt8 := s.toByteArray.data.toList

@[simp] lemma ofText_append (s t : String) : ofText (s ++ t) = ofText s ++ ofText t := by
  unfold ofText
  rw [String.toByteArray_append, ByteArray.data_append, Array.toList_append]

@[simp] lemma length_ofText (s : String) : (ofText s).length = s.utf8ByteSize := by
  rw [← String.size_toByteArray]
  exact Array.length_toList

/-- The bytes of a text decode to the text. -/
lemma fromUTF8?_ofText (s : String) : String.fromUTF8? (ofText s).toByteArray = some s := by
  have hbytes : (ofText s).toByteArray = s.toByteArray := by
    apply ByteArray.ext
    rw [List.data_toByteArray, ofText, Array.toArray_toList]
  rw [hbytes, String.fromUTF8?, dif_pos s.isValidUTF8]
  rfl

lemma ofText_of_fromUTF8? {l : List UInt8} {s : String}
    (h : String.fromUTF8? l.toByteArray = some s) : ofText s = l := by
  unfold String.fromUTF8? at h
  split at h
  · cases h
    show l.toByteArray.data.toList = l
    rw [List.data_toByteArray]
  · cases h

/-- A text whose bytes begin those of another begins the other. -/
lemma prefix_toList {s t : String} (h : ofText s <+: ofText t) : s.toList <+: t.toList := by
  obtain ⟨r, hr⟩ := h
  refine List.isPrefix_of_utf8Encode_append_eq_utf8Encode r.toByteArray ?_
  have hs : s.toList.utf8Encode = s.toByteArray := by rw [← String.toByteArray_ofList, String.ofList_toList]
  have ht : t.toList.utf8Encode = t.toByteArray := by rw [← String.toByteArray_ofList, String.ofList_toList]
  rw [hs, ht]
  apply ByteArray.ext
  rw [ByteArray.data_append, List.data_toByteArray]
  apply Array.toList_inj.mp
  rw [Array.toList_append]
  exact hr

lemma getElem?_ofText {s : String} {p : String.Pos.Raw} (h : p < s.rawEndPos) :
    (ofText s)[p.byteIdx]? = some (s.getUTF8Byte p h) := by
  have hlt : p.byteIdx < (ofText s).length := by
    rw [length_ofText]
    exact h
  rw [List.getElem?_eq_getElem hlt]
  rfl

/-- **A part that is a text has characters around it.** What is found of a text in a text begins and
ends at a character boundary. -/
lemma find_ofText {p s : String} {i : ℕ} (hp : p ≠ "") (h : find (ofText p) (ofText s) = some i) :
    ∃ x z, s = x ++ p ++ z ∧ x.utf8ByteSize = i := by
  have hpre := find_prefix h
  have hle := find_le h
  rw [length_ofText, length_ofText] at hle
  have hpos : 0 < p.utf8ByteSize := by
    rw [Nat.pos_iff_ne_zero]
    exact fun h0 => hp (String.utf8ByteSize_eq_zero_iff.mp h0)
  have hlt : (⟨i⟩ : String.Pos.Raw) < s.rawEndPos := by
    show i < s.utf8ByteSize
    omega
  -- the first byte of `p` begins a character
  have hbyte : s.getUTF8Byte ⟨i⟩ hlt = p.getUTF8Byte 0 hpos := by
    obtain ⟨r, hr⟩ := hpre
    have hhead : (ofText s)[i]? = (ofText p)[0]? := by
      rw [← Nat.add_zero i, ← List.getElem?_drop, ← hr, List.getElem?_append_left]
      rwa [length_ofText]
    have hs := getElem?_ofText hlt
    have hp' := getElem?_ofText (s := p) (p := 0) hpos
    exact Option.some.inj (hs.symm.trans (hhead.trans hp'))
  have hvalid : String.Pos.Raw.IsValid s ⟨i⟩ := by
    refine String.Pos.Raw.isValid_iff_isUTF8FirstByte.mpr (.inr ⟨hlt, ?_⟩)
    rw [hbyte]
    exact String.isUTF8FirstByte_getUTF8Byte_zero
  obtain ⟨x, y, rfl, hx⟩ := String.Pos.Raw.isValid_iff_exists_append.mp hvalid
  have hi : i = x.utf8ByteSize := congrArg String.Pos.Raw.byteIdx hx
  subst hi
  rw [ofText_append, ← length_ofText, List.drop_left] at hpre
  obtain ⟨z, hz⟩ := prefix_toList hpre
  refine ⟨x, String.ofList z, ?_, rfl⟩
  rw [String.append_assoc]
  congr 1
  apply String.toList_inj.mp
  rw [String.toList_append, String.toList_ofList, hz]

lemma ofText_ofList (l : List Char) :
    ofText (String.ofList l) = l.flatMap String.utf8EncodeChar := by
  rw [ofText, String.toByteArray_ofList, List.utf8Encode, List.data_toByteArray]

/-- A digit is one byte, and no quotation mark. -/
lemma utf8_digitChar {n : ℕ} (h : n < 16) :
    ∃ b, String.utf8EncodeChar (Nat.digitChar n) = [b] ∧ b ≠ 0x22 := by
  interval_cases n <;> exact ⟨_, rfl, by decide⟩

lemma utf8_hexPair (b : UInt8) :
    ∃ b₁ b₂, (hexPair b).flatMap String.utf8EncodeChar = [b₁, b₂] ∧ b₁ ≠ 0x22 ∧ b₂ ≠ 0x22 := by
  have hb : b.toNat < 256 := b.toNat_lt
  obtain ⟨b₁, h₁, hne₁⟩ := utf8_digitChar (n := b.toNat / 16) (by omega)
  obtain ⟨b₂, h₂, hne₂⟩ := utf8_digitChar (n := b.toNat % 16) (by omega)
  refine ⟨b₁, b₂, ?_, hne₁, hne₂⟩
  rw [hexPair, List.flatMap_cons, List.flatMap_cons, h₁, h₂]
  rfl

/-- Two digits for every byte. -/
lemma length_lowerHex (bs : List UInt8) : (ofText (lowerHex bs)).length = 2 * bs.length := by
  rw [lowerHex, ofText_ofList]
  induction bs with
  | nil => rfl
  | cons b bs ih =>
    obtain ⟨b₁, b₂, hb, -, -⟩ := utf8_hexPair b
    rw [List.flatMap_cons, List.flatMap_append, hb, List.length_append, ih]
    simp only [List.length_cons, List.length_nil]
    omega

lemma quote_notMem_lowerHex (bs : List UInt8) : 0x22 ∉ ofText (lowerHex bs) := by
  rw [lowerHex, ofText_ofList]
  induction bs with
  | nil => exact List.not_mem_nil
  | cons b bs ih =>
    obtain ⟨b₁, b₂, hb, hne₁, hne₂⟩ := utf8_hexPair b
    rw [List.flatMap_cons, List.flatMap_append, hb, List.mem_append]
    rintro (h | h)
    · simp only [List.mem_cons, List.not_mem_nil, or_false] at h
      rcases h with h | h
      · exact hne₁ h.symm
      · exact hne₂ h.symm
    · exact ih h

end Bytes
