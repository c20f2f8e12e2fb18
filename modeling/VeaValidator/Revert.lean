import VeaValidator.Bytes
import VeaValidator.Types

/-!
The reason of a revert.

When a transaction cannot be sent, `send_tx` has the text of the error, with the data the contract
has returned somewhere inside. `decode_revert_reason` looks for that data and reads it. Its slices
and indices are checked here as Rust checks them, so a place where it could panic is a value of
`Fault`.
-/

namespace VeaValidator

open Bytes

/-- A `str`: its bytes fit the address space. -/
structure Str where
  text : String
  fits : text.utf8ByteSize < 2 ^ 63

/-- The panics of slices, indices, sums and conversions. -/
inductive Fault
  | index
  | boundary
  | overflow
  | unwrap
  /-- Value too large for Uint -/
  | tooLarge
  deriving DecidableEq

/-- Code that can only fail by a panic. -/
abbrev Risky := Except Fault

namespace Risky

/-- `a + b` in `usize`. -/
def add (a b : ℕ) : Risky ℕ := if a + b < 2 ^ 64 then .ok (a + b) else .error .overflow

/-- `bytes[i]` -/
def index (bytes : List UInt8) (i : ℕ) : Risky UInt8 :=
  if h : i < bytes.length then .ok (bytes.get ⟨i, h⟩) else .error .index

/-- `bytes[a..b]` -/
def slice (bytes : List UInt8) (a b : ℕ) : Risky (List UInt8) :=
  if a ≤ b ∧ b ≤ bytes.length then .ok ((bytes.drop a).take (b - a)) else .error .index

/-- `s[a..b]`, where both ends have to be character boundaries. -/
def strSlice (s : String) (a b : ℕ) : Risky String :=
  if h : String.Pos.Raw.IsValid s ⟨a⟩ ∧ String.Pos.Raw.IsValid s ⟨b⟩ then
    if a ≤ b then .ok (s.extract ⟨⟨a⟩, h.1⟩ ⟨⟨b⟩, h.2⟩) else .error .index
  else .error .boundary

/-- `try_into()` for `[u8; n]` -/
def tryInto (n : ℕ) (bytes : List UInt8) : Option (List UInt8) :=
  if bytes.length = n then some bytes else none

def unwrap {α : Type} : Option α → Risky α
  | some a => .ok a
  | none => .error .unwrap

/-- `U256::from_be_slice` -/
def fromBeSlice (bytes : List UInt8) : Risky ℕ :=
  if ofBe bytes < 2 ^ 256 then .ok (ofBe bytes) else .error .tooLarge

/-- `u32::from_be_bytes` of the last four bytes of the word at `start`. -/
def u32At (bytes : List UInt8) (start : ℕ) : Risky ℕ := do
  let b₀ ← index bytes (← add start 28)
  let b₁ ← index bytes (← add start 29)
  let b₂ ← index bytes (← add start 30)
  let b₃ ← index bytes (← add start 31)
  pure (ofBe [b₀, b₁, b₂, b₃])

end Risky

namespace Revert

open Risky

/-- `alloy::hex` -/
structure Hex where
  decode : String → Option (List UInt8)
  encode : List UInt8 → String

def dataPrefix : String := "data: \"0x"

/-- The selector of `Error(string)`. -/
def errorSelector : List UInt8 := [0x08, 0xc3, 0x79, 0xa0]

/-- The selector of `Panic(uint256)`. -/
def panicSelector : List UInt8 := [0x4e, 0x48, 0x7b, 0x71]

/-- The signatures, the lengths of the parameters, and the `keccak256` of the signatures. -/
def knownErrors : List (String × ℕ × Word) :=
  [("UnknownRoot(bytes32)", 32,
      0x8730d7c85bb68b0daa2a2b20c86a8b1024267282f2c9f868b0bc69623a781190#256),
    ("AlreadySpent()", 0,
      0xd4d9b0fdc74f8946a5527288a8dd8809b30b309e78f8eeeedca28842f43c7c8f#256),
    ("ProofTooLong(uint256)", 32,
      0xab6a0683de673442c237e2f291e42ffb659bda5a6f0d00bf9679f40fe4813b01#256),
    ("NotOutbox(address)", 32,
      0x32ea82ab63595ba9bec899ff8c52a012c2ed25e633e5ff4b7fa2adca5d6fd628#256)]

/-- `bytes.len() >= 4 && bytes[0..4] == selector` -/
def selects (bytes selector : List UInt8) : Risky Bool := do
  if bytes.length ≥ 4 then
    let found ← slice bytes 0 4
    pure (found = selector)
  else
    pure false

/-- The branch of `Error(string)`; `none` where it is left for the next branch. -/
def errorString (bytes : List UInt8) : Risky (Option (Option String)) := do
  if ← selects bytes errorSelector then
    if bytes.length ≥ 68 then
      let offset ← u32At bytes 4
      if bytes.length ≥ (← add 36 offset) then
        let lenStart ← add 4 offset
        let len ← u32At bytes lenStart
        let strStart ← add lenStart 32
        if bytes.length ≥ (← add strStart len) then
          let text ← slice bytes strStart (← add strStart len)
          return some (String.fromUTF8? text.toByteArray)
  return none

/-- `{:02x}` -/
def hex02 (n : ℕ) : String :=
  let digits := Nat.toDigits 16 n
  String.ofList (List.replicate (2 - digits.length) '0' ++ digits)

/-- The branch of `Panic(uint256)`. -/
def panicCode (bytes : List UInt8) : Risky (Option String) := do
  if ← selects bytes panicSelector then
    if bytes.length ≥ 36 then
      let code ← fromBeSlice (← slice bytes 4 36)
      return some ("Panic(0x" ++ hex02 code ++ ")")
  return none

/-- The loop over the known errors. -/
def knownError (hex : Hex) (bytes selector : List UInt8) :
    List (String × ℕ × Word) → Risky (Option String)
  | [] => pure none
  | (sig, paramLen, hash) :: rest => do
    let expected ← slice (toBe 32 hash.toNat) 0 4
    if selector = expected then
      if paramLen = 0 then
        return some sig
      else if bytes.length ≥ (← add 4 paramLen) then
        let name ← unwrap (sig.toList.splitOn '(').head?
        let param ← slice bytes 4 (← add 4 paramLen)
        return some (String.ofList name ++ "(0x" ++ hex.encode param ++ ")")
    knownError hex bytes selector rest

/-- The reason in the bytes of the data, whose text is `hexData`. -/
def reasonOf (hex : Hex) (hexData : String) (bytes : List UInt8) : Risky (Option String) := do
  if let some reason ← errorString bytes then
    return reason
  if let some reason ← panicCode bytes then
    return some reason
  if bytes.length ≥ 4 then
    let selector ← unwrap (tryInto 4 (← slice bytes 0 4))
    if let some reason ← knownError hex bytes selector knownErrors then
      return some reason
  return some ("0x" ++ hexData)

/-- The text between the marker and the next quotation mark. -/
def hexDataOf (errMsg : Str) : Risky (Option String) := do
  match find (ofText dataPrefix) (ofText errMsg.text) with
  | none => return none
  | some found =>
    let start ← add found dataPrefix.utf8ByteSize
    let rest ← strSlice errMsg.text start errMsg.text.utf8ByteSize
    match find [0x22] (ofText rest) with
    | none => return none
    | some quote =>
      let stop ← add quote start
      let hexData ← strSlice errMsg.text start stop
      return some hexData

def decodeRevertReason (hex : Hex) (errMsg : Str) : Risky (Option String) := do
  match ← hexDataOf errMsg with
  | none => return none
  | some hexData =>
    if hexData.utf8ByteSize = 0 then
      return some "(empty)"
    if hexData.utf8ByteSize < 8 then
      return some ("0x" ++ hexData)
    match hex.decode hexData with
    | none => return none
    | some bytes => reasonOf hex hexData bytes

/-- The outcome of a transaction: it is not sent, or there is a receipt with its status, or none. -/
inductive Sent
  | refused (error : Str)
  | pending (receipt : Except String Bool)

def sendTx (hex : Hex) (result : Sent) (action routeName : String) :
    Risky (Except String Unit) := do
  match result with
  | .pending (.error e) => return .error e
  | .pending (.ok status) =>
    if !status then
      return .error ("[" ++ routeName ++ "] " ++ action ++ " reverted")
    return .ok ()
  | .refused e =>
    match ← decodeRevertReason hex e with
    | some reason =>
      return .error ("[" ++ routeName ++ "] " ++ action ++ " reverted: " ++ reason)
    | none => return .error e.text

/-! ### What a contract returns -/

/-- The ABI encoding of a text: its length, and its bytes up to a multiple of 32. -/
def abiText (s : String) : List UInt8 :=
  toBe 32 s.utf8ByteSize ++ ofText s ++ List.replicate ((32 - s.utf8ByteSize % 32) % 32) 0

/-- The ABI encoding of the one argument `s`, which begins with the offset of the text. -/
def abiEncode (s : String) : List UInt8 := toBe 32 32 ++ abiText s

/-! ### Slices of a text that has been put together -/

section
variable {x y z : List UInt8} {a b n : ℕ}

lemma ok_bind {α β : Type} {v : α} {f : α → Risky β} : (Except.ok v : Risky α) >>= f = f v := rfl

lemma add_ok (h : a + b < 2 ^ 64) : add a b = .ok (a + b) := if_pos h

lemma slice_ok (ha : a = x.length) (hb : b = x.length + y.length) :
    slice (x ++ y ++ z) a b = .ok y := by
  subst ha hb
  have hin : x.length ≤ x.length + y.length ∧ x.length + y.length ≤ (x ++ y ++ z).length := by
    rw [List.length_append, List.length_append]
    omega
  rw [slice, if_pos hin, List.append_assoc, List.drop_left, Nat.add_sub_cancel_left, List.take_left]

lemma index_ok {i : ℕ} {c : UInt8} (ha : a = x.length + i) (hc : y[i]? = some c) :
    index (x ++ y ++ z) a = .ok c := by
  obtain ⟨hi, hget⟩ := List.getElem?_eq_some_iff.mp hc
  have hin : a < (x ++ y ++ z).length := by
    rw [List.length_append, List.length_append]
    omega
  rw [index, dif_pos hin, List.get_eq_getElem]
  have hopt : (x ++ y ++ z)[a]? = some c := by
    rw [ha, List.append_assoc, List.getElem?_append_right (Nat.le_add_right _ _),
      Nat.add_sub_cancel_left, List.getElem?_append_left hi, hc]
  rw [List.getElem?_eq_getElem hin] at hopt
  rw [Option.some.inj hopt]

/-- A number that fits four bytes is read from its word. -/
lemma u32At_ok (hn : n < 2 ^ 32) (ha : a = x.length) (hsmall : a + 31 < 2 ^ 64) :
    u32At (x ++ toBe 32 n ++ z) a = .ok n := by
  have hlow : (toBe 32 n).drop 28 = toBe 4 n := drop_toBe 28 4 n
  have hval : ofBe (toBe 4 n) = n := by
    rw [ofBe_toBe]
    exact Nat.mod_eq_of_lt hn
  obtain ⟨b₀, b₁, b₂, b₃, hbytes⟩ : ∃ b₀ b₁ b₂ b₃, toBe 4 n = [b₀, b₁, b₂, b₃] :=
    ⟨_, _, _, _, rfl⟩
  have hget : ∀ j, (toBe 32 n)[28 + j]? = [b₀, b₁, b₂, b₃][j]? := fun j => by
    rw [← List.getElem?_drop, hlow, hbytes]
  have hadd : ∀ j, j ≤ 31 → add a j = .ok (x.length + j) := fun j hj => by
    rw [add_ok (by omega), ha]
  rw [u32At, hadd 28 (by omega), hadd 29 (by omega), hadd 30 (by omega), hadd 31 (by omega)]
  rw [ok_bind, index_ok rfl (hget 0), ok_bind, ok_bind, index_ok rfl (hget 1), ok_bind, ok_bind,
    index_ok rfl (hget 2), ok_bind, ok_bind, index_ok rfl (hget 3), ok_bind]
  rw [hbytes] at hval
  exact congrArg Except.ok hval

end

lemma strSlice_ok {x y z : String} {a b : ℕ} (ha : a = x.utf8ByteSize)
    (hb : b = x.utf8ByteSize + y.utf8ByteSize) : strSlice (x ++ y ++ z) a b = .ok y := by
  subst ha hb
  have hx : String.Pos.Raw.IsValid (x ++ y ++ z) ⟨x.utf8ByteSize⟩ :=
    String.Pos.Raw.isValid_iff_exists_append.mpr ⟨x, y ++ z, String.append_assoc, rfl⟩
  have hy : String.Pos.Raw.IsValid (x ++ y ++ z) ⟨x.utf8ByteSize + y.utf8ByteSize⟩ :=
    String.Pos.Raw.isValid_iff_exists_append.mpr
      ⟨x ++ y, z, rfl, String.Pos.Raw.ext String.utf8ByteSize_append.symm⟩
  rw [strSlice, dif_pos ⟨hx, hy⟩, if_pos (Nat.le_add_right _ _)]
  refine congrArg Except.ok (String.toByteArray_inj.mp ?_)
  have hbytes : (x ++ y ++ z).toByteArray = x.toByteArray ++ (y.toByteArray ++ z.toByteArray) := by
    rw [String.append_assoc, String.toByteArray_append, String.toByteArray_append]
  show (x ++ y ++ z).toByteArray.extract (x.toByteArray.size + 0)
    (x.toByteArray.size + y.toByteArray.size) = y.toByteArray
  rw [hbytes, ByteArray.extract_append_size_add, ByteArray.extract_append_eq_left rfl]

/-! ### The reason of a text -/

variable {hex : Hex} {s : String}

lemma length_abiEncode (s : String) : (errorSelector ++ abiEncode s).length =
    68 + s.utf8ByteSize + (32 - s.utf8ByteSize % 32) % 32 := by
  rw [abiEncode, abiText]
  simp only [List.length_append, length_toBe, length_ofText, List.length_replicate]
  rw [errorSelector, List.length_cons, List.length_cons, List.length_cons, List.length_cons,
    List.length_nil]
  omega

/-- **The nested lengths.** The offset leads to the length, and the length to the text. -/
lemma errorString_abiEncode (hs : s.utf8ByteSize < 2 ^ 32) :
    errorString (errorSelector ++ abiEncode s) = .ok (some (some s)) := by
  have hlen := length_abiEncode s
  generalize hbytes : errorSelector ++ abiEncode s = bytes at hlen ⊢
  have hfour : bytes = [] ++ errorSelector ++ abiEncode s := hbytes.symm
  have hoffset : bytes = errorSelector ++ toBe 32 32 ++ abiText s := by
    rw [← hbytes, abiEncode, List.append_assoc]
  have hsize : bytes = errorSelector ++ toBe 32 32 ++ toBe 32 s.utf8ByteSize ++
      (ofText s ++ List.replicate ((32 - s.utf8ByteSize % 32) % 32) 0) := by
    rw [hoffset, abiText]
    simp only [List.append_assoc]
  have htext : bytes = errorSelector ++ toBe 32 32 ++ toBe 32 s.utf8ByteSize ++ ofText s ++
      List.replicate ((32 - s.utf8ByteSize % 32) % 32) 0 := by
    rw [hsize]
    simp only [List.append_assoc]
  have hsel : selects bytes errorSelector = .ok true := by
    have hslice : slice bytes 0 4 = .ok errorSelector := by
      rw [hfour]
      exact slice_ok rfl rfl
    rw [selects, if_pos (by omega), hslice]
    rfl
  have h₁ : u32At bytes 4 = .ok 32 := by
    rw [hoffset]
    exact u32At_ok (by decide) rfl (by decide)
  have h₂ : u32At bytes (4 + 32) = .ok s.utf8ByteSize := by
    rw [hsize]
    exact u32At_ok hs (by simp [errorSelector]) (by decide)
  have h₃ : slice bytes (4 + 32 + 32) (4 + 32 + 32 + s.utf8ByteSize) = .ok (ofText s) := by
    rw [htext]
    exact slice_ok (by simp [errorSelector]) (by simp [errorSelector])
  have hadd : add (4 + 32 + 32) s.utf8ByteSize = .ok (4 + 32 + 32 + s.utf8ByteSize) :=
    add_ok (by omega)
  rw [errorString, hsel, ok_bind, if_pos rfl, if_pos (by omega), h₁, ok_bind, add_ok (by decide),
    ok_bind, if_pos (by omega), add_ok (by decide), ok_bind, h₂, ok_bind, add_ok (by decide), ok_bind,
    hadd, ok_bind, if_pos (by omega), ok_bind, h₃, ok_bind, fromUTF8?_ofText]
  rfl

lemma ofText_quote : ofText "\"" = [0x22] := rfl

/-- The text between the first marker and the quotation mark after it. -/
lemma hexDataOf_message {errMsg : Str} {pre hexText post : String}
    (hm : errMsg.text = pre ++ dataPrefix ++ hexText ++ "\"" ++ post)
    (hfirst : find (ofText dataPrefix) (ofText (pre ++ dataPrefix)) = some (ofText pre).length)
    (hquote : 0x22 ∉ ofText hexText) : hexDataOf errMsg = .ok (some hexText) := by
  have hsize := errMsg.fits
  rw [hm] at hsize
  simp only [String.utf8ByteSize_append] at hsize
  have hrest : errMsg.text = (pre ++ dataPrefix) ++ (hexText ++ ("\"" ++ post)) ++ "" := by
    rw [hm, String.append_empty]
    simp only [String.append_assoc]
  have hcut : errMsg.text = (pre ++ dataPrefix) ++ hexText ++ ("\"" ++ post) := by
    rw [hm]
    simp only [String.append_assoc]
  have hfind : find (ofText dataPrefix) (ofText errMsg.text) = some pre.utf8ByteSize := by
    rw [hcut, String.append_assoc, ofText_append, find_append hfirst, length_ofText]
  have hfindQuote : find [0x22] (ofText (hexText ++ ("\"" ++ post))) =
      some hexText.utf8ByteSize := by
    rw [ofText_append, ofText_append, ofText_quote, List.singleton_append, find_singleton hquote,
      length_ofText]
  have hslice : strSlice errMsg.text (pre.utf8ByteSize + dataPrefix.utf8ByteSize)
      errMsg.text.utf8ByteSize = .ok (hexText ++ ("\"" ++ post)) := by
    rw [hrest]
    refine strSlice_ok String.utf8ByteSize_append.symm ?_
    rw [String.utf8ByteSize_append, String.utf8ByteSize_empty]
    exact String.utf8ByteSize_append
  have hdata : strSlice errMsg.text (pre.utf8ByteSize + dataPrefix.utf8ByteSize)
      (hexText.utf8ByteSize + (pre.utf8ByteSize + dataPrefix.utf8ByteSize)) = .ok hexText := by
    rw [hcut]
    refine strSlice_ok String.utf8ByteSize_append.symm ?_
    rw [String.utf8ByteSize_append]
    omega
  rw [hexDataOf, hfind]
  dsimp only
  rw [add_ok (by omega), ok_bind, hslice, ok_bind, hfindQuote]
  dsimp only
  rw [add_ok (by omega), ok_bind, hdata, ok_bind]
  rfl

/-- **The reason is the text.** A message that has, after the first marker, the digits of the
encoding of `Error(string)` for the text `s`, is decoded to `s`. -/
theorem decodeRevertReason_error (hex : Hex)
    (hdecode : ∀ bs, hex.decode (lowerHex bs) = some bs) (errMsg : Str) (s pre post : String)
    (hs : s.utf8ByteSize < 2 ^ 32)
    (hm : errMsg.text =
      pre ++ dataPrefix ++ lowerHex (errorSelector ++ abiEncode s) ++ "\"" ++ post)
    (hfirst : find (ofText dataPrefix) (ofText (pre ++ dataPrefix)) = some (ofText pre).length) :
    decodeRevertReason hex errMsg = .ok (some s) := by
  have hlen : (lowerHex (errorSelector ++ abiEncode s)).utf8ByteSize ≥ 8 := by
    rw [← length_ofText, length_lowerHex, length_abiEncode]
    omega
  rw [decodeRevertReason, hexDataOf_message hm hfirst (quote_notMem_lowerHex _), ok_bind]
  dsimp only
  rw [if_neg (by omega), if_neg (by omega), hdecode]
  dsimp only
  rw [reasonOf, errorString_abiEncode hs, ok_bind]
  rfl

/-! ### A codec -/

/-- The value of a digit of either case. -/
def hexValue (c : Char) : Option ℕ :=
  if '0' ≤ c ∧ c ≤ '9' then some (c.toNat - '0'.toNat)
  else if 'a' ≤ c ∧ c ≤ 'f' then some (c.toNat - 'a'.toNat + 10)
  else if 'A' ≤ c ∧ c ≤ 'F' then some (c.toNat - 'A'.toNat + 10)
  else none

def decodeDigits : List Char → Option (List UInt8)
  | [] => some []
  | [_] => none
  | c₁ :: c₂ :: cs => do
    let n₁ ← hexValue c₁
    let n₂ ← hexValue c₂
    let bs ← decodeDigits cs
    pure (UInt8.ofNat (16 * n₁ + n₂) :: bs)

/-- The codec the documentation of `alloy::hex` describes: `0x` may stand before the digits. -/
def hexCodec : Hex where
  decode s :=
    match s.toList with
    | '0' :: 'x' :: cs => decodeDigits cs
    | cs => decodeDigits cs
  encode := lowerHex

lemma hexValue_digitChar {n : ℕ} (h : n < 16) : hexValue (Nat.digitChar n) = some n := by
  interval_cases n <;> rfl

lemma decodeDigits_hexPair (bs : List UInt8) : decodeDigits (bs.flatMap hexPair) = some bs := by
  induction bs with
  | nil => rfl
  | cons b bs ih =>
    have hb : b.toNat < 256 := b.toNat_lt
    have hbyte : UInt8.ofNat (16 * (b.toNat / 16) + b.toNat % 16) = b := by
      rw [Nat.div_add_mod, UInt8.ofNat_toNat]
    rw [List.flatMap_cons, hexPair, List.cons_append, List.cons_append, List.nil_append, decodeDigits,
      hexValue_digitChar (by omega), hexValue_digitChar (by omega), ih]
    exact congrArg (fun b => some (b :: bs)) hbyte

/-- What it has encoded it decodes: no digit is an `x`. -/
lemma hexCodec_decode (bs : List UInt8) : hexCodec.decode (lowerHex bs) = some bs := by
  rw [hexCodec, lowerHex]
  dsimp only
  rw [String.toList_ofList]
  split
  · next cs hcs =>
    cases bs with
    | nil => cases hcs
    | cons b bs =>
      have hx : Nat.digitChar (b.toNat % 16) = 'x' := (List.cons.inj (List.cons.inj hcs).2).1
      have hval := hexValue_digitChar (n := b.toNat % 16) (by omega)
      rw [hx] at hval
      cases hval
  · exact decodeDigits_hexPair bs

/-- A refusal of the inbox, as a node reports it. -/
def sampleText : String :=
  "server returned an error response: error code 3: execution reverted, " ++ dataPrefix ++
    lowerHex (errorSelector ++ abiEncode "Invalid claim") ++ "\"" ++ ""

def sample : Str := ⟨sampleText, by decide +kernel⟩

theorem decodeRevertReason_error_sample :
    decodeRevertReason hexCodec sample = .ok (some "Invalid claim") :=
  decodeRevertReason_error hexCodec hexCodec_decode sample "Invalid claim"
    "server returned an error response: error code 3: execution reverted, " "" (by decide) rfl
    (by decide +kernel)

end Revert

end VeaValidator
