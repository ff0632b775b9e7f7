import EspNowEdhoc.Ffi.Session
import EspNowEdhoc.Lib.Runs
import EspNowEdhoc.Lib.Text

/-!
# Hex and MAC text of the host tool

* `Reads`: the byte lists that pairs of characters stand for, if a `+` may take the place of a first
  digit; **`decodeHex_eq_ok`**: this is what `decodeHex` reads.
* **`readers_exact_iff`**: `decodeHex` and `parseMac` accept exactly hex on every other string.
* **`hex_round_trips`**: what the writers write is read back, whatever the case of the digits and
  wherever separators are put in.
-/

set_option autoImplicit false

namespace EspNowEdhoc

namespace LakersReference

open Text Runs

/-! ## `main.rs` -/

/-- The closure of `decode_hex`. -/
def decodePair (pair : List UInt8) : Except String UInt8 := do
  let text ← (fromUtf8 pair).mapError Utf8Error.toText
  (u8FromStrRadix text 16).mapError IntErrorKind.toText

/-- `decode_hex`. -/
def decodeHex (input : String) : Except String (List UInt8) :=
  if (asBytes input).length % 2 ≠ 0 then .error "hex string has an odd number of characters"
  else (chunksExact 2 (asBytes input)).mapM decodePair

/-- `encode_hex`. -/
def encodeHex (bytes : List UInt8) : String :=
  bytes.foldl (fun output byte => output ++ lowerHex 2 byte) ""

/-- The characters of `normalized` in `parse_mac`. -/
def normalized (input : String) : List Char :=
  input.toList.filter fun character => character != ':' && character != '-'

/-- `parse_mac`. -/
def parseMac (input : String) : Except String Mac := do
  let bytes ← decodeHex (String.ofList (normalized input))
  if h : bytes.length = 6 then .ok ⟨bytes, h⟩
  else .error ("MAC address must contain exactly 6 bytes: " ++ input)

/-- `format_mac`. -/
def formatMac (mac : Mac) : String :=
  let hex (i : ℕ) : String := upperHex 2 (mac.toList.getD i 0)
  hex 0 ++ ":" ++ hex 1 ++ ":" ++ hex 2 ++ ":" ++ hex 3 ++ ":" ++ hex 4 ++ ":" ++ hex 5

/-! ## What `decode_hex` reads -/

/-- The byte of two hexadecimal digits. -/
def pairByte (a b : Char) : UInt8 := UInt8.ofNat (hexValue a * 16 + hexValue b)

/-- Pairs of characters and the bytes read from them. `from_str_radix` takes a `+` before the second
character for a sign. -/
inductive Reads : List Char → List UInt8 → Prop
  | nil : Reads [] []
  | digits {a b : Char} {cs : List Char} {bytes : List UInt8} (ha : IsHexDigit a)
      (hb : IsHexDigit b) (h : Reads cs bytes) : Reads (a :: b :: cs) (pairByte a b :: bytes)
  | plus {b : Char} {cs : List Char} {bytes : List UInt8} (hb : IsHexDigit b) (h : Reads cs bytes) :
      Reads ('+' :: b :: cs) (UInt8.ofNat (hexValue b) :: bytes)

theorem Reads.mem {cs : List Char} {bytes : List UInt8} (h : Reads cs bytes) :
    ∀ c ∈ cs, IsHexDigit c ∨ c = '+' := by
  induction h with
  | nil => exact fun c hc => absurd hc List.not_mem_nil
  | digits ha hb _ ih =>
    exact List.forall_mem_cons.mpr ⟨.inl ha, List.forall_mem_cons.mpr ⟨.inl hb, ih⟩⟩
  | plus hb _ ih =>
    exact List.forall_mem_cons.mpr ⟨.inr rfl, List.forall_mem_cons.mpr ⟨.inl hb, ih⟩⟩

theorem Reads.ascii {cs : List Char} {bytes : List UInt8} (h : Reads cs bytes) :
    ∀ c ∈ cs, c.toNat < 128 := fun c hc => by
  rcases h.mem c hc with hdigit | rfl
  · exact hdigit.ascii
  · decide

theorem Reads.even {cs : List Char} {bytes : List UInt8} (h : Reads cs bytes) :
    cs.length = 2 * bytes.length := by
  induction h with
  | nil => rfl
  | digits _ _ _ ih | plus _ _ ih => simp only [List.length_cons]; omega

theorem u8FromStrRadix_pair {s : String} {a b v : UInt8} (hs : asBytes s = [a, b]) :
    u8FromStrRadix s 16 = .ok v ↔ IsHexDigit (Char.ofUInt8 b) ∧
      (IsHexDigit (Char.ofUInt8 a) ∧ v = pairByte (Char.ofUInt8 a) (Char.ofUInt8 b) ∨
        Char.ofUInt8 a = '+' ∧ v = UInt8.ofNat (hexValue (Char.ofUInt8 b))) := by
  rw [u8FromStrRadix, map_eq_ok, fromStrRadix, hs]
  dsimp only
  by_cases hplus : Char.ofUInt8 a = '+'
  · rw [if_pos hplus, hplus]
    have hnot : ¬ IsHexDigit '+' := by decide
    constructor
    · rintro ⟨n, hn, rfl⟩
      obtain ⟨hdigits, rfl, -⟩ := digitsLoop_hex.mp hn
      exact ⟨hdigits b List.mem_cons_self, .inr ⟨rfl, by simp [ofDigits]⟩⟩
    · rintro ⟨hb, ⟨ha, -⟩ | ⟨-, rfl⟩⟩
      · exact absurd ha hnot
      · have hlt := hexValue_lt hb
        exact ⟨_, digitsLoop_hex.mpr ⟨by simpa using hb, by simp [ofDigits], by omega⟩, rfl⟩
  · rw [if_neg hplus]
    constructor
    · rintro ⟨n, hn, rfl⟩
      obtain ⟨hdigits, rfl, -⟩ := digitsLoop_hex.mp hn
      have hb : b ∈ [a, b] := List.mem_cons_of_mem a List.mem_cons_self
      exact ⟨hdigits b hb, .inl ⟨hdigits a List.mem_cons_self, by simp [ofDigits, pairByte]⟩⟩
    · rintro ⟨hb, ⟨ha, rfl⟩ | ⟨hplus', -⟩⟩
      · have hlta := hexValue_lt ha
        have hltb := hexValue_lt hb
        exact ⟨_, digitsLoop_hex.mpr ⟨by simpa using ⟨ha, hb⟩, by simp [ofDigits], by omega⟩, rfl⟩
      · exact absurd hplus' hplus

/-- **What the closure reads**: two digits, or a `+` and a digit. -/
theorem decodePair_eq_ok {a b v : UInt8} :
    decodePair [a, b] = .ok v ↔ IsHexDigit (Char.ofUInt8 b) ∧
      (IsHexDigit (Char.ofUInt8 a) ∧ v = pairByte (Char.ofUInt8 a) (Char.ofUInt8 b) ∨
        Char.ofUInt8 a = '+' ∧ v = UInt8.ofNat (hexValue (Char.ofUInt8 b))) := by
  have hbytes {s : String} (hs : fromUtf8 [a, b] = .ok s) := u8FromStrRadix_pair (v := v)
    (asBytes_of_fromUtf8 hs)
  simp only [decodePair, bind_eq_ok, mapError_eq_ok]
  constructor
  · rintro ⟨s, hs, hv⟩
    exact (hbytes hs).mp hv
  · intro h
    -- what is read is ASCII, so no character is cut in two
    have ha : (Char.ofUInt8 a).toNat < 128 := by
      rcases h.2 with ⟨ha, -⟩ | ⟨ha, -⟩
      · exact ha.ascii
      · rw [ha]
        decide
    have hb : (Char.ofUInt8 b).toNat < 128 := h.1.ascii
    rw [toNat_ofUInt8] at ha hb
    obtain ⟨s, hs⟩ := fromUtf8_ascii (v := [a, b]) (by simpa using ⟨ha, hb⟩)
    exact ⟨s, hs, (hbytes hs).mpr h⟩

theorem mapM_decodePair : ∀ {v bytes : List UInt8}, v.length % 2 = 0 →
    ((chunksExact 2 v).mapM decodePair = .ok bytes ↔ Reads (v.map Char.ofUInt8) bytes)
  | [], bytes, _ => by
    have hnil : (chunksExact 2 ([] : List UInt8)).mapM decodePair = .ok [] := rfl
    rw [hnil]
    constructor
    · rintro ⟨⟩
      exact .nil
    · rintro ⟨⟩
      rfl
  | [_], _, h => by simp at h
  | a :: b :: v, bytes, h => by
    have hchunk : chunksExact 2 (a :: b :: v) = [a, b] :: chunksExact 2 v :=
      @chunksExact_append UInt8 2 (by decide) [a, b] rfl v
    have hlen : v.length % 2 = 0 := by
      simp only [List.length_cons] at h
      omega
    have ih {bytes : List UInt8} : (chunksExact 2 v).mapM decodePair = .ok bytes ↔
        Reads (v.map Char.ofUInt8) bytes := mapM_decodePair hlen
    simp only [hchunk, mapM_cons_eq_ok, decodePair_eq_ok, ih, List.map_cons]
    constructor
    · rintro ⟨b', ⟨hb, ⟨ha, rfl⟩ | ⟨ha, rfl⟩⟩, bytes, hr, rfl⟩
      · exact .digits ha hb hr
      · rw [ha]
        exact .plus hb hr
    · intro hr
      generalize ha : Char.ofUInt8 a = a', hb : Char.ofUInt8 b = b' at hr
      cases hr with
      | digits ha' hb' hr => exact ⟨_, ⟨hb', .inl ⟨ha', rfl⟩⟩, _, hr, rfl⟩
      | plus hb' hr => exact ⟨_, ⟨hb', .inr ⟨rfl, rfl⟩⟩, _, hr, rfl⟩

theorem decodeHex_eq_ok {s : String} {bytes : List UInt8} :
    decodeHex s = .ok bytes ↔ Reads s.toList bytes := by
  rw [decodeHex]
  constructor
  · intro h
    split at h
    · cases h
    next heven =>
    rw [not_not] at heven
    have hr := (mapM_decodePair heven).mp h
    have hascii : ∀ b ∈ asBytes s, b.toNat < 128 := fun b hb => by
      rw [← toNat_ofUInt8]
      exact hr.ascii _ (List.mem_map_of_mem hb)
    rwa [asBytes_map_ofUInt8 (.inr hascii)] at hr
  · intro hr
    have hchars := asBytes_map_ofUInt8 (.inl hr.ascii)
    have heven : (asBytes s).length % 2 = 0 := by
      rw [← List.length_map Char.ofUInt8, hchars, hr.even, Nat.mul_mod_right]
    rw [if_neg (not_not.mpr heven), mapM_decodePair heven, hchars]
    exact hr

theorem parseMac_eq_ok {s : String} {mac : Mac} :
    parseMac s = .ok mac ↔ Reads (normalized s) mac.toList := by
  simp only [parseMac, bind_eq_ok, decodeHex_eq_ok, String.toList_ofList]
  constructor
  · rintro ⟨bytes, hr, h⟩
    split at h
    · cases h
      exact hr
    · cases h
  · intro hr
    exact ⟨mac.toList, hr, dif_pos mac.toList_length⟩

/-! ## What the readers accept -/

/-- Text of an even number of hexadecimal digits. -/
def IsHexText (cs : List Char) : Prop := cs.length % 2 = 0 ∧ ∀ c ∈ cs, IsHexDigit c

/-- The pairs of digits, read in order. -/
def pairBytes : List Char → List UInt8
  | a :: b :: cs => pairByte a b :: pairBytes cs
  | _ => []

/-- Pairs of a digit, or a `+`, and a digit. -/
def HexOrPlusPairs : List Char → Prop
  | [] => True
  | [_] => False
  | a :: b :: cs => (IsHexDigit a ∨ a = '+') ∧ IsHexDigit b ∧ HexOrPlusPairs cs

/-- Such pairs with at least one `+`. -/
def PlusPairs (cs : List Char) : Prop := HexOrPlusPairs cs ∧ '+' ∈ cs

theorem exists_reads_iff : ∀ {cs : List Char}, (∃ bytes, Reads cs bytes) ↔ HexOrPlusPairs cs
  | [] => iff_of_true ⟨[], .nil⟩ trivial
  | [_] => iff_of_false (by rintro ⟨_, ⟨⟩⟩) id
  | a :: b :: cs => by
    have ih : (∃ bytes, Reads cs bytes) ↔ HexOrPlusPairs cs := exists_reads_iff
    rw [HexOrPlusPairs, ← ih]
    constructor
    · rintro ⟨_, hr⟩
      cases hr with
      | digits ha hb hr => exact ⟨.inl ha, hb, _, hr⟩
      | plus hb hr => exact ⟨.inr rfl, hb, _, hr⟩
    · rintro ⟨ha | rfl, hb, _, hr⟩
      · exact ⟨_, .digits ha hb hr⟩
      · exact ⟨_, .plus hb hr⟩

theorem isHexText_cons_cons {a b : Char} {cs : List Char} :
    IsHexText (a :: b :: cs) ↔ IsHexDigit a ∧ IsHexDigit b ∧ IsHexText cs := by
  simp only [IsHexText, List.length_cons, List.forall_mem_cons, Nat.add_mod_right, Nat.add_assoc]
  tauto

theorem reads_pairBytes : ∀ {cs : List Char}, IsHexText cs → Reads cs (pairBytes cs)
  | [], _ => .nil
  | [_], h => absurd h.1 (by simp)
  | a :: b :: cs, h => by
    obtain ⟨ha, hb, hcs⟩ := isHexText_cons_cons.mp h
    exact .digits ha hb (reads_pairBytes hcs)

theorem isHexText_iff : ∀ {cs : List Char}, IsHexText cs ↔ HexOrPlusPairs cs ∧ '+' ∉ cs
  | [] => iff_of_true ⟨rfl, by simp⟩ ⟨trivial, by simp⟩
  | [_] => iff_of_false (fun h => absurd h.1 (by simp)) fun h => h.1
  | a :: b :: cs => by
    have hplus {c : Char} (hc : IsHexDigit c) : '+' ≠ c := by
      rintro rfl
      exact absurd hc (by decide)
    have ih : IsHexText cs ↔ HexOrPlusPairs cs ∧ '+' ∉ cs := isHexText_iff
    rw [isHexText_cons_cons, ih, HexOrPlusPairs, List.mem_cons, List.mem_cons, not_or, not_or]
    constructor
    · rintro ⟨ha, hb, hpairs, hcs⟩
      exact ⟨⟨.inl ha, hb, hpairs⟩, hplus ha, hplus hb, hcs⟩
    · rintro ⟨⟨ha | rfl, hb, hpairs⟩, hna, -, hcs⟩
      · exact ⟨ha, hb, hpairs, hcs⟩
      · exact absurd rfl hna

theorem hexOrPlusPairs_iff_isHexText {cs : List Char} :
    (HexOrPlusPairs cs ↔ IsHexText cs) ↔ ¬ PlusPairs cs := by
  rw [isHexText_iff, PlusPairs]
  tauto

theorem exists_decodeHex {s : String} :
    (∃ bytes, decodeHex s = .ok bytes) ↔ HexOrPlusPairs s.toList := by
  simp only [decodeHex_eq_ok, exists_reads_iff]

theorem exists_parseMac {s : String} :
    (∃ mac, parseMac s = .ok mac) ↔
      (normalized s).length = 12 ∧ HexOrPlusPairs (normalized s) := by
  simp only [parseMac_eq_ok, ← exists_reads_iff]
  constructor
  · rintro ⟨mac, hr⟩
    exact ⟨by rw [hr.even, mac.toList_length], mac.toList, hr⟩
  · rintro ⟨hlen, bytes, hr⟩
    have heven := hr.even
    exact ⟨⟨bytes, by omega⟩, hr⟩

/-- **A sign is accepted**: as the first character of a pair, a `+` is read like a `0`. -/
theorem plus_sign_accepted :
    decodeHex "+a" = .ok [0x0a] ∧ ¬ IsHexText "+a".toList ∧
      parseMac "+2:00:00:00:00:01" = .ok ⟨[2, 0, 0, 0, 0, 1], rfl⟩ ∧
      ¬ IsHexText (normalized "+2:00:00:00:00:01") := by
  have hz : IsHexDigit '0' := by decide
  refine ⟨decodeHex_eq_ok.mpr (.plus (by decide) .nil), fun h => absurd (h.2 '+' (by decide))
    (by decide), ?_, fun h => absurd (h.2 '+' (by decide)) (by decide)⟩
  exact parseMac_eq_ok.mpr (.plus (by decide) (.digits hz hz (.digits hz hz (.digits hz hz
    (.digits hz hz (.digits hz (by decide) .nil))))))

/-- **The readers accept exactly hexadecimal text**, but for a `+` as the first character of a
pair. -/
theorem readers_exact_iff (s : String) :
    ((((∃ bytes, decodeHex s = .ok bytes) ↔ IsHexText s.toList) ∧
        (IsHexText s.toList → decodeHex s = .ok (pairBytes s.toList))) ↔ ¬ PlusPairs s.toList) ∧
      (((∃ mac, parseMac s = .ok mac) ↔
          (normalized s).length = 12 ∧ ∀ c ∈ normalized s, IsHexDigit c) ↔
        ¬ ((normalized s).length = 12 ∧ PlusPairs (normalized s))) := by
  refine ⟨?_, ?_⟩
  · rw [exists_decodeHex, ← hexOrPlusPairs_iff_isHexText]
    exact and_iff_left fun h => decodeHex_eq_ok.mpr (reads_pairBytes h)
  · rw [exists_parseMac]
    by_cases hlen : (normalized s).length = 12
    · have htext : (∀ c ∈ normalized s, IsHexDigit c) ↔ IsHexText (normalized s) := by
        rw [IsHexText, hlen]
        exact (and_iff_right rfl).symm
      simp only [hlen, true_and, htext]
      exact hexOrPlusPairs_iff_isHexText
    · simp [hlen]

/-! ## Round trips -/

/-- The hexadecimal digits of a byte list. -/
def nibbles (bytes : List UInt8) : List ℕ :=
  bytes.flatMap fun b => [b.toNat / 16, b.toNat % 16]

/-- The character is this digit, in lower or upper case. -/
def DigitOf (c : Char) (d : ℕ) : Prop := c = Nat.digitChar d ∨ c = (Nat.digitChar d).toUpper

instance : DecidableRel DigitOf := fun c d =>
  inferInstanceAs (Decidable (c = Nat.digitChar d ∨ c = (Nat.digitChar d).toUpper))

/-- A character that `parse_mac` leaves out. -/
def IsSeparator (c : Char) : Prop := c = ':' ∨ c = '-'

theorem forall₂_digitOf {f : ℕ → Char} (hf : ∀ d, DigitOf (f d) d) {ds : List ℕ} :
    List.Forall₂ DigitOf (ds.map f) ds := by
  rw [List.forall₂_map_left_iff]
  exact List.forall₂_same.mpr fun d _ => hf d

theorem pairByte_digitOf {a b : Char} {byte : UInt8} (ha : DigitOf a (byte.toNat / 16))
    (hb : DigitOf b (byte.toNat % 16)) :
    IsHexDigit a ∧ IsHexDigit b ∧ pairByte a b = byte := by
  have hlt := byte.toNat_lt
  obtain ⟨ha, hva⟩ := hexDigit_of_digitChar (by omega) ha
  obtain ⟨hb, hvb⟩ := hexDigit_of_digitChar (by omega) hb
  refine ⟨ha, hb, ?_⟩
  rw [pairByte, hva, hvb, Nat.div_add_mod', UInt8.ofNat_toNat]

/-- **The digits of a byte list are read as the list**, in either case. -/
theorem reads_digits {cs : List Char} {bytes : List UInt8}
    (h : List.Forall₂ DigitOf cs (nibbles bytes)) : Reads cs bytes := by
  induction bytes generalizing cs with
  | nil =>
    cases h
    exact .nil
  | cons byte bytes ih =>
    rw [nibbles, List.flatMap_cons] at h
    cases h with
    | cons ha h =>
      cases h with
      | cons hb h =>
        obtain ⟨ha, hb, hbyte⟩ := pairByte_digitOf ha hb
        rw [← hbyte]
        exact .digits ha hb (ih h)

theorem toList_encodeHex (bytes : List UInt8) :
    (encodeHex bytes).toList = (nibbles bytes).map Nat.digitChar := by
  have hfold (output : String) :
      (bytes.foldl (fun output byte => output ++ lowerHex 2 byte) output).toList =
        output.toList ++ (nibbles bytes).map Nat.digitChar := by
    induction bytes generalizing output with
    | nil => simp [nibbles]
    | cons byte bytes ih =>
      rw [List.foldl_cons, ih, String.toList_append, toList_lowerHex, List.append_assoc]
      rfl
  exact hfold ""

theorem inserted_hex {f : ℕ → Char} {hex : UInt8 → String}
    (hhex : ∀ b : UInt8, (hex b).toList = [f (b.toNat / 16), f (b.toNat % 16)]) (byte : UInt8)
    {bytes : List UInt8} {text : List Char}
    (h : Inserted IsSeparator ((nibbles bytes).map f) text) :
    Inserted IsSeparator ((nibbles (byte :: bytes)).map f) ((hex byte).toList ++ text) := by
  rw [hhex]
  exact .keep _ (.keep _ h)

theorem inserted_colons {f : ℕ → Char} {hex : UInt8 → String}
    (hhex : ∀ b : UInt8, (hex b).toList = [f (b.toNat / 16), f (b.toNat % 16)]) (mac : Mac) :
    let byte (i : ℕ) : String := hex (mac.toList.getD i 0)
    Inserted IsSeparator ((nibbles mac.toList).map f) (byte 0 ++ ":" ++ byte 1 ++ ":" ++ byte 2 ++
      ":" ++ byte 3 ++ ":" ++ byte 4 ++ ":" ++ byte 5).toList := by
  intro byte
  have hbytes : mac.toList = [mac.toList.getD 0 0, mac.toList.getD 1 0, mac.toList.getD 2 0,
      mac.toList.getD 3 0, mac.toList.getD 4 0, mac.toList.getD 5 0] := mac.toList_eq_map_getD
  have hcolon : ":".toList = [':'] := rfl
  have hlast : Inserted IsSeparator ((nibbles [mac.toList.getD 5 0]).map f)
      ((byte 5).toList ++ []) := inserted_hex hhex _ .nil
  rw [List.append_nil] at hlast
  rw [hbytes]
  simp only [String.toList_append, List.append_assoc, hcolon, List.singleton_append]
  refine inserted_hex hhex _ (.insert (.inl rfl) (inserted_hex hhex _ (.insert (.inl rfl) ?_)))
  refine inserted_hex hhex _ (.insert (.inl rfl) (inserted_hex hhex _ (.insert (.inl rfl) ?_)))
  exact inserted_hex hhex _ (.insert (.inl rfl) hlast)

theorem inserted_formatMac (mac : Mac) : Inserted IsSeparator
    ((nibbles mac.toList).map fun d => (Nat.digitChar d).toUpper) (formatMac mac).toList :=
  inserted_colons toList_upperHex mac

theorem normalized_of_inserted {digits : List Char} {bytes : List UInt8} {s : String}
    (hr : Reads digits bytes) (hs : Inserted IsSeparator digits s.toList) :
    normalized s = digits := by
  have hsep : ∀ c, IsSeparator c → (c != ':' && c != '-') = false := by
    rintro c (rfl | rfl) <;> decide
  rw [normalized, hs.filter_eq hsep, List.filter_eq_self]
  intro c hc
  rcases hr.mem c hc with hc | rfl
  · exact hc.forall (P := fun c => (c != ':' && c != '-') = true) (by decide)
  · rfl

theorem parseMac_inserted {mac : Mac} {digits : List Char} {s : String}
    (hdigits : List.Forall₂ DigitOf digits (nibbles mac.toList))
    (hs : Inserted IsSeparator digits s.toList) : parseMac s = .ok mac := by
  have hr := reads_digits hdigits
  rw [parseMac_eq_ok, normalized_of_inserted hr hs]
  exact hr

/-- **What is written is read back**, and so are the digits of a MAC in either case, with any
separators at any places. -/
theorem hex_round_trips :
    (∀ bytes, decodeHex (encodeHex bytes) = .ok bytes) ∧
      (∀ mac, parseMac (formatMac mac) = .ok mac) ∧
      ∀ (mac : Mac) (digits : List Char) (s : String),
        List.Forall₂ DigitOf digits (nibbles mac.toList) →
          Inserted IsSeparator digits s.toList → parseMac s = .ok mac := by
  refine ⟨fun bytes => ?_, fun mac => ?_, fun mac digits s => parseMac_inserted⟩
  · rw [decodeHex_eq_ok, toList_encodeHex]
    exact reads_digits (forall₂_digitOf fun _ => .inl rfl)
  · exact parseMac_inserted (forall₂_digitOf fun _ => .inr rfl) (inserted_formatMac mac)

/-- Separators in odd places and digits of both cases. -/
theorem hex_round_trips_mixed :
    parseMac "-0A:b:C0d-00e00f:" = .ok ⟨[0x0a, 0xbc, 0x0d, 0x00, 0xe0, 0x0f], rfl⟩ := by
  refine hex_round_trips.2.2 _ "0AbC0d00e00f".toList _ (by decide) ?_
  refine .insert (.inr rfl) (.keep _ (.keep _ (.insert (.inl rfl) ?_)))
  refine .keep _ (.insert (.inl rfl) ?_)
  refine .keep _ (.keep _ (.keep _ (.insert (.inr rfl) (.keep _ (.keep _ (.keep _ ?_))))))
  exact .keep _ (.keep _ (.keep _ (.insert (.inl rfl) .nil)))

end LakersReference

end EspNowEdhoc
