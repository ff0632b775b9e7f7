import Mathlib.Data.Nat.Find
import Mathlib.Data.List.Forall2

/-!
# Text as bytes, and numbers as text

Functions of the Rust standard library on strings, with the texts of their errors.

* `asBytes`, `fromUtf8`: a string as its UTF-8 bytes and back; **`asBytes_of_fromUtf8`**,
  **`fromUtf8_ascii`**.
* `toDigit`, `fromStrRadix`: `char::to_digit` and `from_str_radix` of an unsigned type, which allows
  one `+` in front; **`digitsLoop_eq_ok`**.
* `IsNumber`: the text of a number; **`fromStrRadix_eq_ok`**, `isNumber_toDigits`.
* `lowerHex`, `upperHex`: the formats `x` and `X` of a byte, padded with zeros;
  `hexDigit_of_digitChar`.
-/

set_option autoImplicit false

namespace Text

/-! ## UTF-8 -/

/-- `str::as_bytes`. -/
def asBytes (s : String) : List UInt8 := s.toByteArray.data.toList

/-- `Utf8Error`. -/
structure Utf8Error where
  validUpTo : ℕ
  errorLen : Option ℕ
  deriving DecidableEq

/-- `Display` of `Utf8Error`. -/
def Utf8Error.toText (e : Utf8Error) : String :=
  match e.errorLen with
  | some len => "invalid utf-8 sequence of " ++ toString len ++ " bytes from index " ++
      toString e.validUpTo
  | none => "incomplete utf-8 byte sequence from index " ++ toString e.validUpTo

/-- The second bytes that UTF-8 allows after a first byte. -/
def validSecond (first second : UInt8) : Bool :=
  if 0xC2 ≤ first ∧ first ≤ 0xDF then 0x80 ≤ second && second ≤ 0xBF
  else if first = 0xE0 then 0xA0 ≤ second && second ≤ 0xBF
  else if first = 0xED then 0x80 ≤ second && second ≤ 0x9F
  else if 0xE1 ≤ first ∧ first ≤ 0xEF then 0x80 ≤ second && second ≤ 0xBF
  else if first = 0xF0 then 0x90 ≤ second && second ≤ 0xBF
  else if 0xF1 ≤ first ∧ first ≤ 0xF3 then 0x80 ≤ second && second ≤ 0xBF
  else if first = 0xF4 then 0x80 ≤ second && second ≤ 0x8F
  else false

/-- The length of the invalid sequence that `v` starts with, and `none` where `v` ends first. -/
def errorLen (v : List UInt8) : Option ℕ :=
  match v with
  | [] => none
  | first :: rest =>
    if first < 0xC2 ∨ first > 0xF4 then some 1
    else
      match rest with
      | [] => none
      | second :: rest =>
        if validSecond first second = false then some 1
        else (rest.findIdx? fun b => b < 0x80 || b > 0xBF).map (· + 2)

/-- The length of the longest prefix that is UTF-8. -/
def validUpTo (v : List UInt8) : ℕ :=
  Nat.findGreatest (fun n => (v.take n).toByteArray.validateUTF8) v.length

/-- `str::from_utf8`. -/
def fromUtf8 (v : List UInt8) : Except Utf8Error String :=
  match String.fromUTF8? v.toByteArray with
  | some s => .ok s
  | none => .error ⟨validUpTo v, errorLen (v.drop (validUpTo v))⟩

theorem asBytes_eq (s : String) : asBytes s = s.toList.flatMap String.utf8EncodeChar := by
  rw [asBytes, ← String.utf8Encode_toList, List.utf8Encode, List.toList_data_toByteArray]

/-- **A string is read back as the bytes it was read from.** -/
theorem asBytes_of_fromUtf8 {v : List UInt8} {s : String} (h : fromUtf8 v = .ok s) :
    asBytes s = v := by
  unfold fromUtf8 at h
  split at h
  · next s' hs =>
    cases h
    rw [String.fromUTF8?] at hs
    split at hs
    · cases hs
      exact List.toList_data_toByteArray
    · cases hs
  · cases h

/-! ### ASCII -/

theorem utf8EncodeChar_ascii {c : Char} (h : c.toNat < 128) :
    String.utf8EncodeChar c = [UInt8.ofNat c.toNat] := by
  have hv : c.val.toNat ≤ 127 := Nat.le_of_lt_succ h
  rw [String.utf8EncodeChar]
  exact if_pos hv

theorem ascii_of_utf8EncodeChar {c : Char}
    (h : ∀ b ∈ String.utf8EncodeChar c, b.toNat < 128) : c.toNat < 128 := by
  by_contra hc
  have hv : ¬ c.val.toNat ≤ 127 := fun hle => hc (Nat.lt_succ_of_le hle)
  -- the first byte of a longer encoding is at least `0xC0`
  simp only [String.utf8EncodeChar, if_neg hv] at h
  split at h
  · have hfirst := h _ List.mem_cons_self
    rw [UInt8.toNat_ofNat'] at hfirst
    omega
  split at h <;>
  · have hfirst := h _ List.mem_cons_self
    rw [UInt8.toNat_ofNat'] at hfirst
    omega

theorem toNat_ofUInt8 (b : UInt8) : (Char.ofUInt8 b).toNat = b.toNat := UInt8.toNat_toUInt32 b

theorem ofUInt8_ofNat {c : Char} (h : c.toNat < 128) : Char.ofUInt8 (UInt8.ofNat c.toNat) = c := by
  apply Char.ext
  apply UInt32.toNat_inj.mp
  change (Char.ofUInt8 (UInt8.ofNat c.toNat)).toNat = c.toNat
  rw [toNat_ofUInt8, UInt8.toNat_ofNat']
  exact Nat.mod_eq_of_lt (by omega)

theorem flatMap_utf8EncodeChar {cs : List Char} (h : ∀ c ∈ cs, c.toNat < 128) :
    cs.flatMap String.utf8EncodeChar = cs.map fun c => UInt8.ofNat c.toNat := by
  induction cs with
  | nil => rfl
  | cons c cs ih =>
    rw [List.flatMap_cons, utf8EncodeChar_ascii (h c List.mem_cons_self),
      ih fun c' hc' => h c' (List.mem_cons_of_mem c hc')]
    rfl

/-- **ASCII text.** If all characters or all bytes are below `0x80`, they are the same. -/
theorem asBytes_map_ofUInt8 {s : String}
    (h : (∀ c ∈ s.toList, c.toNat < 128) ∨ ∀ b ∈ asBytes s, b.toNat < 128) :
    (asBytes s).map Char.ofUInt8 = s.toList := by
  have hchars : ∀ c ∈ s.toList, c.toNat < 128 := by
    rcases h with hchars | hbytes
    · exact hchars
    · intro c hc
      refine ascii_of_utf8EncodeChar fun b hb => hbytes b ?_
      rw [asBytes_eq]
      exact List.mem_flatMap.mpr ⟨c, hc, hb⟩
  rw [asBytes_eq, flatMap_utf8EncodeChar hchars, List.map_map]
  exact (List.map_congr_left fun c hc => ofUInt8_ofNat (hchars c hc)).trans (List.map_id _)

/-- **Bytes below `0x80` are UTF-8.** -/
theorem fromUtf8_ascii {v : List UInt8} (h : ∀ b ∈ v, b.toNat < 128) : ∃ s, fromUtf8 v = .ok s := by
  have hchars : ∀ c ∈ v.map Char.ofUInt8, c.toNat < 128 := by
    intro c hc
    obtain ⟨b, hb, rfl⟩ := List.mem_map.mp hc
    rw [toNat_ofUInt8]
    exact h b hb
  have hv : v = (v.map Char.ofUInt8).flatMap String.utf8EncodeChar := by
    rw [flatMap_utf8EncodeChar hchars, List.map_map]
    refine ((List.map_congr_left fun b _ => ?_).trans (List.map_id v)).symm
    change UInt8.ofNat (Char.ofUInt8 b).toNat = b
    rw [toNat_ofUInt8, UInt8.ofNat_toNat]
  have hvalid : v.toByteArray.IsValidUTF8 := .intro (v.map Char.ofUInt8) (congrArg _ hv)
  refine ⟨String.fromUTF8 v.toByteArray hvalid, ?_⟩
  rw [fromUtf8, String.fromUTF8?, dif_pos hvalid]

/-! ## Chunks -/

variable {α : Type*}

/-- `slice::chunks_exact`. -/
def chunksExact (n : ℕ) (l : List α) : List (List α) :=
  (List.range (l.length / n)).map fun i => (l.drop (i * n)).take n

theorem chunksExact_append {n : ℕ} (hn : 0 < n) {chunk : List α} (hc : chunk.length = n)
    (l : List α) : chunksExact n (chunk ++ l) = chunk :: chunksExact n l := by
  have hlen : (chunk ++ l).length / n = l.length / n + 1 := by
    rw [List.length_append, hc, Nat.add_comm, Nat.add_div_right _ hn]
  rw [chunksExact, hlen, List.range_succ_eq_map, List.map_cons, List.map_map]
  congr 1
  · rw [Nat.zero_mul, List.drop_zero, List.take_left' hc]
  · refine List.map_congr_left fun i _ => ?_
    change ((chunk ++ l).drop ((i + 1) * n)).take n = _
    rw [Nat.succ_mul, Nat.add_comm, ← List.drop_drop, List.drop_left' hc]

/-! ## Numbers -/

/-- The kinds of a `ParseIntError` of an unsigned type. -/
inductive IntErrorKind
  | empty | invalidDigit | posOverflow
  deriving DecidableEq

/-- `Display` of `ParseIntError`. -/
def IntErrorKind.toText : IntErrorKind → String
  | .empty => "cannot parse integer from empty string"
  | .invalidDigit => "invalid digit found in string"
  | .posOverflow => "number too large to fit in target type"

/-- `char::to_digit`. -/
def toDigit (c : Char) (radix : ℕ) : Option ℕ :=
  let digit :=
    if '0' ≤ c ∧ c ≤ '9' then some (c.toNat - '0'.toNat)
    else if 'a' ≤ c ∧ c ≤ 'z' then some (c.toNat - 'a'.toNat + 10)
    else if 'A' ≤ c ∧ c ≤ 'Z' then some (c.toNat - 'A'.toNat + 10)
    else none
  digit.filter (· < radix)

/-- The loop of `from_str_radix` over the digits, with `result` so far. -/
def digitsLoop (max radix : ℕ) : ℕ → List UInt8 → Except IntErrorKind ℕ
  | result, [] => .ok result
  | result, c :: digits =>
    match toDigit (Char.ofUInt8 c) radix with
    | none => .error .invalidDigit
    | some x =>
      if result * radix > max then .error .posOverflow
      else if result * radix + x > max then .error .posOverflow
      else digitsLoop max radix (result * radix + x) digits

/-- `from_str_radix` of the unsigned type with this maximum. -/
def fromStrRadix (max : ℕ) (src : String) (radix : ℕ) : Except IntErrorKind ℕ :=
  match asBytes src with
  | [] => .error .empty
  | [c] =>
    if Char.ofUInt8 c = '+' ∨ Char.ofUInt8 c = '-' then .error .invalidDigit
    else digitsLoop max radix 0 [c]
  | c :: rest =>
    -- a `-` is not stripped from a number of an unsigned type, and it is no digit
    if Char.ofUInt8 c = '+' then digitsLoop max radix 0 rest
    else digitsLoop max radix 0 (c :: rest)

/-- `u8::from_str_radix`. -/
def u8FromStrRadix (src : String) (radix : ℕ) : Except IntErrorKind UInt8 :=
  UInt8.ofNat <$> fromStrRadix 255 src radix

/-- The number with these digits, most significant first, after `result`. -/
def ofDigits (radix result : ℕ) (xs : List ℕ) : ℕ := xs.foldl (fun r x => r * radix + x) result

theorem le_ofDigits {radix : ℕ} (hradix : 0 < radix) (result : ℕ) (xs : List ℕ) :
    result ≤ ofDigits radix result xs := by
  induction xs generalizing result with
  | nil => exact le_rfl
  | cons x xs ih =>
    calc result ≤ result * radix := Nat.le_mul_of_pos_right result hradix
      _ ≤ result * radix + x := Nat.le_add_right ..
      _ ≤ ofDigits radix result (x :: xs) := ih (result * radix + x)

theorem digitsLoop_cons_eq_ok {max radix result : ℕ} {c : UInt8} {digits : List UInt8} {n : ℕ} :
    digitsLoop max radix result (c :: digits) = .ok n ↔
      ∃ x, toDigit (Char.ofUInt8 c) radix = some x ∧ result * radix + x ≤ max ∧
        digitsLoop max radix (result * radix + x) digits = .ok n := by
  rw [digitsLoop]
  cases hx : toDigit (Char.ofUInt8 c) radix with
  | none => exact iff_of_false nofun (by rintro ⟨_, h, -⟩; cases h)
  | some x =>
    dsimp only
    by_cases hover : result * radix + x > max
    · refine iff_of_false (by split <;> nofun) ?_
      rintro ⟨_, ⟨⟩, hle, -⟩
      omega
    · rw [if_neg (by omega), if_neg hover]
      constructor
      · exact fun h => ⟨x, rfl, by omega, h⟩
      · rintro ⟨_, ⟨⟩, -, h⟩
        exact h

/-- **The loop succeeds** on digits whose number fits, with that number. -/
theorem digitsLoop_eq_ok {max radix : ℕ} (hradix : 0 < radix) {result : ℕ} (hmax : result ≤ max)
    {digits : List UInt8} {n : ℕ} :
    digitsLoop max radix result digits = .ok n ↔
      ∃ xs, List.Forall₂ (fun c x => toDigit (Char.ofUInt8 c) radix = some x) digits xs ∧
        n = ofDigits radix result xs ∧ n ≤ max := by
  induction digits generalizing result with
  | nil =>
    simp only [digitsLoop, Except.ok.injEq, List.forall₂_nil_left_iff, exists_eq_left]
    constructor
    · rintro rfl
      exact ⟨rfl, hmax⟩
    · exact fun h => h.1.symm
  | cons c digits ih =>
    rw [digitsLoop_cons_eq_ok]
    constructor
    · rintro ⟨x, hx, hle, hloop⟩
      obtain ⟨xs, hxs, hn⟩ := (ih hle).mp hloop
      exact ⟨x :: xs, .cons hx hxs, hn⟩
    · rintro ⟨_, hxs, hn, hle⟩
      cases hxs with
      | @cons _ x _ xs hx hxs =>
        -- an overflow is not made good by the digits that follow
        have hfits : result * radix + x ≤ ofDigits radix result (x :: xs) :=
          le_ofDigits hradix (result * radix + x) xs
        exact ⟨x, hx, by omega, (ih (by omega)).mpr ⟨xs, hxs, hn, hle⟩⟩

/-! ### Texts of numbers -/

theorem ascii_of_toDigit {c : Char} {radix x : ℕ} (h : toDigit c radix = some x) :
    c.toNat < 128 := by
  have hle {d : Char} (hd : d.toNat < 128) (hc : c ≤ d) : c.toNat < 128 := by
    have : c.toNat ≤ d.toNat := UInt32.le_iff_toNat_le.mp hc
    omega
  unfold toDigit at h
  dsimp only at h
  split at h
  · next hc => exact hle (by decide) hc.2
  split at h
  · next hc => exact hle (by decide) hc.2
  split at h
  · next hc => exact hle (by decide) hc.2
  · cases h

/-- The text of a number: its digits, and maybe a `+` in front. -/
def IsNumber (radix : ℕ) (cs : List Char) (n : ℕ) : Prop :=
  ∃ digits xs, (cs = digits ∨ cs = '+' :: digits) ∧ digits ≠ [] ∧
    List.Forall₂ (fun c x => toDigit c radix = some x) digits xs ∧ n = ofDigits radix 0 xs

theorem toDigit_sign {c : Char} (hc : c = '+' ∨ c = '-') (radix : ℕ) : toDigit c radix = none := by
  rcases hc with rfl | rfl <;> rfl

theorem digitsLoop_map_eq_ok {max radix : ℕ} (hradix : 0 < radix) {digits : List UInt8} {n : ℕ} :
    digitsLoop max radix 0 digits = .ok n ↔
      ∃ xs, List.Forall₂ (fun c x => toDigit c radix = some x) (digits.map Char.ofUInt8) xs ∧
        n = ofDigits radix 0 xs ∧ n ≤ max := by
  simp only [digitsLoop_eq_ok hradix (Nat.zero_le max), List.forall₂_map_left_iff]

theorem isNumber_cons {radix : ℕ} {c : Char} (hc : c ≠ '+') {cs : List Char} {n : ℕ} :
    IsNumber radix (c :: cs) n ↔
      ∃ xs, List.Forall₂ (fun c x => toDigit c radix = some x) (c :: cs) xs ∧
        n = ofDigits radix 0 xs := by
  constructor
  · rintro ⟨digits, xs, rfl | heq, -, hxs⟩
    · exact ⟨xs, hxs⟩
    · exact absurd (List.cons.inj heq).1 hc
  · rintro ⟨xs, hxs⟩
    exact ⟨_, xs, .inl rfl, List.cons_ne_nil c cs, hxs⟩

theorem isNumber_plus {radix : ℕ} {cs : List Char} {n : ℕ} :
    IsNumber radix ('+' :: cs) n ↔ cs ≠ [] ∧
      ∃ xs, List.Forall₂ (fun c x => toDigit c radix = some x) cs xs ∧ n = ofDigits radix 0 xs := by
  constructor
  · rintro ⟨digits, xs, rfl | heq, hne, hxs⟩
    · -- the sign itself is no digit
      obtain ⟨hxs, -⟩ := hxs
      cases hxs with
      | cons hsign _ => exact absurd hsign (by rw [toDigit_sign (.inl rfl)]; nofun)
    · obtain ⟨-, rfl⟩ := List.cons.inj heq
      exact ⟨hne, xs, hxs⟩
  · rintro ⟨hne, xs, hxs⟩
    exact ⟨cs, xs, .inr rfl, hne, hxs⟩

theorem fromStrRadix_map_eq_ok {max radix : ℕ} (hradix : 0 < radix) {s : String} {n : ℕ} :
    fromStrRadix max s radix = .ok n ↔
      IsNumber radix ((asBytes s).map Char.ofUInt8) n ∧ n ≤ max := by
  have hcons {c : UInt8} (hc : Char.ofUInt8 c ≠ '+') (rest : List UInt8) :
      digitsLoop max radix 0 (c :: rest) = .ok n ↔
        IsNumber radix ((c :: rest).map Char.ofUInt8) n ∧ n ≤ max := by
    rw [digitsLoop_map_eq_ok hradix, List.map_cons, isNumber_cons hc]
    exact ⟨fun ⟨xs, hxs, hn, hle⟩ => ⟨⟨xs, hxs, hn⟩, hle⟩,
      fun ⟨⟨xs, hxs, hn⟩, hle⟩ => ⟨xs, hxs, hn, hle⟩⟩
  unfold fromStrRadix
  generalize asBytes s = bytes
  split
  · refine iff_of_false nofun ?_
    rintro ⟨⟨_, _, rfl | ⟨⟨⟩⟩, hne, -⟩, -⟩
    exact hne rfl
  · next c =>
    split
    · next hsign =>
      refine iff_of_false nofun ?_
      rintro ⟨h, -⟩
      rw [List.map_cons, List.map_nil] at h
      by_cases hc : Char.ofUInt8 c = '+'
      · rw [hc] at h
        exact (isNumber_plus.mp h).1 rfl
      · obtain ⟨xs, hxs, -⟩ := (isNumber_cons hc).mp h
        cases hxs with
        | cons hx _ => exact absurd hx (by rw [toDigit_sign hsign]; nofun)
    · next hsign => exact hcons (fun hc => hsign (.inl hc)) []
  · next c rest hne =>
    split
    · next hc =>
      have hrest : rest.map Char.ofUInt8 ≠ [] := fun h => hne (List.map_eq_nil_iff.mp h)
      rw [digitsLoop_map_eq_ok hradix, List.map_cons, hc, isNumber_plus, and_iff_right hrest]
      exact ⟨fun ⟨xs, hxs, hn, hle⟩ => ⟨⟨xs, hxs, hn⟩, hle⟩,
        fun ⟨⟨xs, hxs, hn⟩, hle⟩ => ⟨xs, hxs, hn, hle⟩⟩
    · next hc => exact hcons hc rest

theorem IsNumber.ascii {radix : ℕ} {cs : List Char} {n : ℕ} (h : IsNumber radix cs n) :
    ∀ c ∈ cs, c.toNat < 128 := by
  obtain ⟨digits, xs, hcs, -, hxs, -⟩ := h
  have hdigits : ∀ c ∈ digits, c.toNat < 128 := by
    clear hcs
    induction hxs with
    | nil => exact fun c hc => absurd hc List.not_mem_nil
    | cons hx _ ih => exact List.forall_mem_cons.mpr ⟨ascii_of_toDigit hx, ih⟩
  rcases hcs with rfl | rfl
  · exact hdigits
  · exact List.forall_mem_cons.mpr ⟨by decide, hdigits⟩

/-- **What `from_str_radix` reads**: the texts of the numbers of the type. -/
theorem fromStrRadix_eq_ok {max radix : ℕ} (hradix : 0 < radix) {s : String} {n : ℕ} :
    fromStrRadix max s radix = .ok n ↔ IsNumber radix s.toList n ∧ n ≤ max := by
  rw [fromStrRadix_map_eq_ok hradix]
  refine and_congr_left fun _ => ⟨fun h => ?_, fun h => ?_⟩
  · have hascii : ∀ b ∈ asBytes s, b.toNat < 128 := fun b hb => by
      rw [← toNat_ofUInt8]
      exact h.ascii _ (List.mem_map_of_mem hb)
    rwa [asBytes_map_ofUInt8 (.inr hascii)] at h
  · rwa [asBytes_map_ofUInt8 (.inl h.ascii)]

theorem forall₂_toDigits {radix : ℕ} (hradix : 1 < radix)
    (hdigit : ∀ d < radix, toDigit (Nat.digitChar d) radix = some d) (n : ℕ) :
    ∃ xs, List.Forall₂ (fun c x => toDigit c radix = some x) (Nat.toDigits radix n) xs ∧
      n = ofDigits radix 0 xs := by
  induction n using Nat.strong_induction_on with
  | _ n ih =>
    by_cases hlt : n < radix
    · rw [Nat.toDigits_of_lt_base hlt]
      exact ⟨[n], .cons (hdigit n hlt) .nil, by simp [ofDigits]⟩
    · obtain ⟨xs, hxs, hn⟩ := ih (n / radix) (Nat.div_lt_self (by omega) hradix)
      rw [Nat.toDigits_of_base_le hradix (Nat.le_of_not_lt hlt)]
      refine ⟨xs ++ [n % radix],
        List.rel_append hxs (.cons (hdigit _ (Nat.mod_lt n (by omega))) .nil), ?_⟩
      rw [ofDigits, List.foldl_append]
      change n = ofDigits radix 0 xs * radix + n % radix
      rw [← hn, Nat.div_add_mod']

theorem isNumber_toDigits {radix : ℕ} (hradix : 1 < radix)
    (hdigit : ∀ d < radix, toDigit (Nat.digitChar d) radix = some d) (n : ℕ) :
    IsNumber radix (Nat.toDigits radix n) n := by
  obtain ⟨xs, hxs⟩ := forall₂_toDigits hradix hdigit n
  exact ⟨_, xs, .inl rfl, Nat.toDigits_ne_nil, hxs⟩

/-! ## Hexadecimal -/

/-- One of `0-9`, `a-f`, `A-F`. -/
def IsHexDigit (c : Char) : Prop := c ∈ "0123456789abcdefABCDEF".toList

instance : DecidablePred IsHexDigit := fun c => inferInstanceAs (Decidable (c ∈ _))

theorem IsHexDigit.forall {P : Char → Prop} [DecidablePred P]
    (hP : ("0123456789abcdefABCDEF".toList.all fun c => P c) = true) {c : Char}
    (h : IsHexDigit c) : P c := of_decide_eq_true (List.all_eq_true.mp hP c h)

/-- The value of a hexadecimal digit. -/
def hexValue (c : Char) : ℕ := "0123456789abcdef".toList.idxOf c.toLower

/-- **The digits of radix 16** are the hexadecimal digits. -/
theorem toDigit_eq_some {c : Char} {x : ℕ} :
    toDigit c 16 = some x ↔ IsHexDigit c ∧ x = hexValue c := by
  have hread : ∀ n < 128, ∀ x ∈ toDigit (Char.ofNat n) 16,
      IsHexDigit (Char.ofNat n) ∧ x = hexValue (Char.ofNat n) := by decide
  constructor
  · intro h
    have hc := hread c.toNat (ascii_of_toDigit h)
    rw [Char.ofNat_toNat] at hc
    exact hc x h
  · rintro ⟨hc, rfl⟩
    exact hc.forall (P := fun c => toDigit c 16 = some (hexValue c)) (by decide)

theorem IsHexDigit.ascii {c : Char} (h : IsHexDigit c) : c.toNat < 128 :=
  h.forall (P := fun c => c.toNat < 128) (by decide)

theorem hexValue_lt {c : Char} (h : IsHexDigit c) : hexValue c < 16 :=
  h.forall (P := fun c => hexValue c < 16) (by decide)

theorem forall₂_toDigit {digits : List UInt8} {xs : List ℕ} :
    List.Forall₂ (fun c x => toDigit (Char.ofUInt8 c) 16 = some x) digits xs ↔
      (∀ c ∈ digits, IsHexDigit (Char.ofUInt8 c)) ∧
        xs = digits.map fun c => hexValue (Char.ofUInt8 c) := by
  induction digits generalizing xs with
  | nil => simp
  | cons c digits ih =>
    simp only [List.forall₂_cons_left_iff, ih, List.forall_mem_cons, List.map_cons]
    constructor
    · rintro ⟨_, _, hx, ⟨hdigits, rfl⟩, rfl⟩
      obtain ⟨hc, rfl⟩ := toDigit_eq_some.mp hx
      exact ⟨⟨hc, hdigits⟩, rfl⟩
    · rintro ⟨⟨hc, hdigits⟩, rfl⟩
      exact ⟨_, _, toDigit_eq_some.mpr ⟨hc, rfl⟩, ⟨hdigits, rfl⟩, rfl⟩

theorem digitsLoop_hex {max : ℕ} {digits : List UInt8} {n : ℕ} :
    digitsLoop max 16 0 digits = .ok n ↔ (∀ c ∈ digits, IsHexDigit (Char.ofUInt8 c)) ∧
      n = ofDigits 16 0 (digits.map fun c => hexValue (Char.ofUInt8 c)) ∧ n ≤ max := by
  rw [digitsLoop_eq_ok (by decide) (Nat.zero_le max)]
  constructor
  · rintro ⟨xs, hxs, hn⟩
    obtain ⟨hdigits, rfl⟩ := forall₂_toDigit.mp hxs
    exact ⟨hdigits, hn⟩
  · rintro ⟨hdigits, hn⟩
    exact ⟨_, forall₂_toDigit.mpr ⟨hdigits, rfl⟩, hn⟩

/-- The format `0width` `x` of a byte. -/
def lowerHex (width : ℕ) (b : UInt8) : String :=
  String.ofList ((Nat.toDigits 16 b.toNat).leftpad width '0')

/-- The format `0width` `X` of a byte. -/
def upperHex (width : ℕ) (b : UInt8) : String :=
  String.ofList (((Nat.toDigits 16 b.toNat).map Char.toUpper).leftpad width '0')

theorem toDigits_byte (b : UInt8) : (Nat.toDigits 16 b.toNat).leftpad 2 '0' =
    [Nat.digitChar (b.toNat / 16), Nat.digitChar (b.toNat % 16)] := by
  have hb := b.toNat_lt
  by_cases hlt : b.toNat < 16
  · rw [Nat.toDigits_of_lt_base hlt, Nat.div_eq_of_lt hlt, Nat.mod_eq_of_lt hlt]
    rfl
  · rw [Nat.toDigits_of_base_le (by decide) (by omega), Nat.toDigits_of_lt_base (by omega)]
    rfl

theorem toList_lowerHex (b : UInt8) : (lowerHex 2 b).toList =
    [Nat.digitChar (b.toNat / 16), Nat.digitChar (b.toNat % 16)] := by
  rw [lowerHex, String.toList_ofList, toDigits_byte]

theorem toList_upperHex (b : UInt8) : (upperHex 2 b).toList =
    [(Nat.digitChar (b.toNat / 16)).toUpper, (Nat.digitChar (b.toNat % 16)).toUpper] := by
  have hpad : ((Nat.toDigits 16 b.toNat).map Char.toUpper).leftpad 2 '0' =
      ((Nat.toDigits 16 b.toNat).leftpad 2 '0').map Char.toUpper := by
    simp [List.leftpad]
  rw [upperHex, String.toList_ofList, hpad, toDigits_byte]
  rfl

theorem hexDigit_of_digitChar {d : ℕ} (h : d < 16) {c : Char}
    (hc : c = Nat.digitChar d ∨ c = (Nat.digitChar d).toUpper) : IsHexDigit c ∧ hexValue c = d := by
  have hall : ∀ d < 16, (IsHexDigit (Nat.digitChar d) ∧ hexValue (Nat.digitChar d) = d) ∧
      IsHexDigit (Nat.digitChar d).toUpper ∧ hexValue (Nat.digitChar d).toUpper = d := by decide
  rcases hc with rfl | rfl
  · exact (hall d h).1
  · exact (hall d h).2

/-! ## Results -/

theorem bind_eq_ok {ε α β : Type} {x : Except ε α} {f : α → Except ε β} {b : β} :
    x >>= f = .ok b ↔ ∃ a, x = .ok a ∧ f a = .ok b := by
  cases x with
  | error e => simp [bind, Except.bind]
  | ok a => simp [bind, Except.bind]

theorem map_eq_ok {ε α β : Type} {x : Except ε α} {f : α → β} {b : β} :
    f <$> x = .ok b ↔ ∃ a, x = .ok a ∧ f a = b := by
  cases x with
  | error e => simp [Functor.map, Except.map]
  | ok a => simp [Functor.map, Except.map]

theorem mapError_eq_ok {ε ε' α : Type} {x : Except ε α} {f : ε → ε'} {a : α} :
    x.mapError f = .ok a ↔ x = .ok a := by
  cases x with
  | error e => exact iff_of_false nofun nofun
  | ok a => simp [Except.mapError]

theorem mapM_cons_eq_ok {ε α β : Type} {f : α → Except ε β} {a : α} {l : List α} {bs : List β} :
    (a :: l).mapM f = .ok bs ↔ ∃ b, f a = .ok b ∧ ∃ bs', l.mapM f = .ok bs' ∧ b :: bs' = bs := by
  simp only [List.mapM_cons, bind_eq_ok, pure, Except.pure, Except.ok.injEq]

end Text
