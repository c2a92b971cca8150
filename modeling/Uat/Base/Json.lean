import Mathlib.Data.Nat.Digits.Lemmas
import Uat.Base.Positional

/-! # JSON values and their compact text

    `print` writes a value without white space: strings between quotes, with the two
    reserved characters and the control characters escaped, unsigned integers in
    decimal.  `parse` reads such text back.  It is a reader of compact text: white
    space, and escapes the printer never writes, are refused.

    `parse_print` is the round trip for every value without a foreign numeral.  A reader
    of one value stops where the value ends, so the lemmas are about `print v ++ rest`
    for a `rest` that does not continue a number. -/

namespace Json

open Positional

/-- A JSON value.  `numeral` is a number that is not an unsigned integer. -/
inductive Value where
  | null
  | bool (b : Bool)
  | nat (n : Nat)
  | numeral (text : List UInt8)
  | str (s : String)
  | arr (items : List Value)
  | obj (fields : List (String × Value))

/-! ## Strings -/

/-- The UTF-8 bytes of a string. -/
def utf8 (s : String) : List UInt8 := s.toByteArray.data.toList

/-- The string that bytes encode, where they are UTF-8. -/
def ofUtf8 (bs : List UInt8) : Option String := String.fromUTF8? ⟨bs.toArray⟩

/-- A string is read back from its bytes. -/
theorem ofUtf8_utf8 (s : String) : ofUtf8 (utf8 s) = some s := by
  have hbytes : (⟨(utf8 s).toArray⟩ : ByteArray) = s.toByteArray := rfl
  rw [ofUtf8, hbytes, String.fromUTF8?, dif_pos s.isValidUTF8]
  rfl

/-- A digit of a `\u` escape, in lower case. -/
def hexDigit (n : Nat) : UInt8 := if n < 10 then UInt8.ofNat (48 + n) else UInt8.ofNat (87 + n)

/-- The value of a digit that `hexDigit` wrote. -/
def hexValue (b : UInt8) : Nat := if b < 58 then b.toNat - 48 else b.toNat - 87

/-- The escapes of the compact printer. -/
def escape (b : UInt8) : List UInt8 :=
  if b = 34 then [92, 34]
  else if b = 92 then [92, 92]
  else if b = 8 then [92, 98]
  else if b = 9 then [92, 116]
  else if b = 10 then [92, 110]
  else if b = 12 then [92, 102]
  else if b = 13 then [92, 114]
  else if b < 32 then [92, 117, 48, 48, hexDigit (b.toNat / 16), hexDigit (b.toNat % 16)]
  else [b]

/-- Read one character of a string, escaped or not. -/
def readChar : List UInt8 → Option (UInt8 × List UInt8)
  | [] => none
  | b :: rest =>
      if b < 32 then none
      else if b = 92 then
        match rest with
        | c :: rest =>
            if c = 34 ∨ c = 92 then some (c, rest)
            else if c = 98 then some (8, rest)
            else if c = 116 then some (9, rest)
            else if c = 110 then some (10, rest)
            else if c = 102 then some (12, rest)
            else if c = 114 then some (13, rest)
            else if c = 117 then
              match rest with
              | x :: y :: z :: w :: rest =>
                  if x = 48 ∧ y = 48 then some (UInt8.ofNat (hexValue z * 16 + hexValue w), rest)
                  else none
              | _ => none
            else none
        | [] => none
      else some (b, rest)

/-- Every byte is read back from its escape. -/
theorem readChar_escape (b : UInt8) (rest : List UInt8) :
    readChar (escape b ++ rest) = some (b, rest) := by
  -- The control characters without a short escape: two hex digits give the byte.
  have hhex : ∀ n < 32, UInt8.ofNat (hexValue (hexDigit (n / 16)) * 16 +
      hexValue (hexDigit (n % 16))) = UInt8.ofNat n := by
    decide
  rw [escape]
  by_cases h34 : b = 34
  · rw [if_pos h34, h34]
    rfl
  rw [if_neg h34]
  by_cases h92 : b = 92
  · rw [if_pos h92, h92]
    rfl
  rw [if_neg h92]
  by_cases h8 : b = 8
  · rw [if_pos h8, h8]
    rfl
  rw [if_neg h8]
  by_cases h9 : b = 9
  · rw [if_pos h9, h9]
    rfl
  rw [if_neg h9]
  by_cases h10 : b = 10
  · rw [if_pos h10, h10]
    rfl
  rw [if_neg h10]
  by_cases h12 : b = 12
  · rw [if_pos h12, h12]
    rfl
  rw [if_neg h12]
  by_cases h13 : b = 13
  · rw [if_pos h13, h13]
    rfl
  rw [if_neg h13]
  by_cases h32 : b < 32
  · have hlt : b.toNat < 32 := UInt8.lt_iff_toNat_lt.mp h32
    rw [if_pos h32]
    show some (UInt8.ofNat _, rest) = _
    rw [hhex b.toNat hlt, UInt8.ofNat_toNat]
  · rw [if_neg h32]
    show (if b < 32 then none else if b = 92 then _ else some (b, rest)) = _
    rw [if_neg h32, if_neg h92]

/-- Read the rest of a string, up to its closing quote. -/
def readChars : Nat → List UInt8 → Option (List UInt8 × List UInt8)
  | 0, _ => none
  | f + 1, bs =>
      match bs with
      | [] => none
      | b :: rest =>
          if b = 34 then some ([], rest) else do
          let (c, rest) ← readChar (b :: rest)
          let (cs, rest) ← readChars f rest
          some (c :: cs, rest)

/-- No escape starts with a quote. -/
theorem escape_head (b : UInt8) : ∃ c cs, escape b = c :: cs ∧ c ≠ 34 := by
  rw [escape]
  by_cases h34 : b = 34
  · rw [if_pos h34]
    exact ⟨92, [34], rfl, by decide⟩
  rw [if_neg h34]
  repeat'
    first
    | exact ⟨_, _, rfl, h34⟩
    | exact ⟨_, _, rfl, by decide⟩
    | split

/-- What was escaped is read back up to the closing quote. -/
theorem readChars_escape (rest : List UInt8) :
    ∀ (bs : List UInt8) (f : Nat), bs.length < f →
      readChars f (bs.flatMap escape ++ 34 :: rest) = some (bs, rest) := by
  intro bs
  -- The fuel pays for one byte of the text at a time.
  induction bs with
  | nil =>
      intro f hf
      obtain ⟨f, rfl⟩ := Nat.exists_eq_add_of_lt hf
      rfl
  | cons b bs ih =>
      intro f hf
      obtain ⟨f, rfl⟩ : ∃ g, f = g + 1 := ⟨f - 1, by rw [List.length_cons] at hf; omega⟩
      obtain ⟨c, cs, hc, hne⟩ := escape_head b
      have hchar := readChar_escape b (bs.flatMap escape ++ 34 :: rest)
      rw [List.flatMap_cons, List.append_assoc]
      rw [hc, List.cons_append] at hchar ⊢
      rw [readChars]
      dsimp only
      rw [if_neg hne, hchar]
      show (readChars f (bs.flatMap escape ++ 34 :: rest)).bind _ = _
      rw [ih f (by rw [List.length_cons] at hf; omega)]
      rfl

/-- A string in quotes. -/
def quote (s : String) : List UInt8 := 34 :: ((utf8 s).flatMap escape ++ [34])

/-- Read a string after its opening quote. -/
def readString (bs : List UInt8) : Option (String × List UInt8) := do
  let (cs, rest) ← readChars (bs.length + 1) bs
  let s ← ofUtf8 cs
  some (s, rest)

theorem length_escape_pos (b : UInt8) : 0 < (escape b).length := by
  obtain ⟨c, cs, hc, -⟩ := escape_head b
  rw [hc]
  exact Nat.succ_pos _

/-- Escaping shortens nothing. -/
theorem length_flatMap_escape (bs : List UInt8) : bs.length ≤ (bs.flatMap escape).length := by
  induction bs with
  | nil => exact Nat.le_refl 0
  | cons b bs ih =>
      have := length_escape_pos b
      rw [List.flatMap_cons, List.length_append, List.length_cons]
      omega

/-- No escape is longer than six bytes. -/
theorem length_escape_le (b : UInt8) : (escape b).length ≤ 6 := by
  rw [escape]
  repeat'
    first
    | exact Nat.le_refl 6
    | exact (by decide : 2 ≤ 6)
    | exact (by decide : 1 ≤ 6)
    | split

/-- An escape is at most six bytes wide. -/
theorem length_flatMap_escape_le (bs : List UInt8) :
    (bs.flatMap escape).length ≤ 6 * bs.length := by
  induction bs with
  | nil => exact Nat.le_refl 0
  | cons b bs ih =>
      have := length_escape_le b
      rw [List.flatMap_cons, List.length_append, List.length_cons]
      omega

/-- The width of a quoted string, at most. -/
theorem length_quote_le (s : String) : (quote s).length ≤ 2 + 6 * (utf8 s).length := by
  have := length_flatMap_escape_le (utf8 s)
  rw [quote, List.length_cons, List.length_append, List.length_singleton]
  omega

/-- Bytes that need no escape are written as they are. -/
theorem flatMap_escape_eq {bs : List UInt8} (h : ∀ b ∈ bs, escape b = [b]) :
    bs.flatMap escape = bs := by
  induction bs with
  | nil => rfl
  | cons b bs ih =>
      obtain ⟨hb, hbs⟩ := List.forall_mem_cons.mp h
      rw [List.flatMap_cons, hb, ih hbs, List.singleton_append]

/-- The width of a quoted string that needs no escape. -/
theorem length_quote_eq {s : String} (h : ∀ b ∈ utf8 s, escape b = [b]) :
    (quote s).length = 2 + (utf8 s).length := by
  rw [quote, flatMap_escape_eq h, List.length_cons, List.length_append, List.length_singleton]
  omega

/-- The bytes a character takes inside a string. -/
def escapedWidth (c : Char) : Nat := ((String.utf8EncodeChar c).flatMap escape).length

/-- The bytes a string takes between its quotes. -/
def stringWidth (s : String) : Nat := (s.toList.map escapedWidth).sum

/-- The widths of two strings add up. -/
theorem stringWidth_append (s t : String) :
    stringWidth (s ++ t) = stringWidth s + stringWidth t := by
  rw [stringWidth, String.toList_append, List.map_append, List.sum_append]
  rfl

/-- **How long a string prints**: two quotes, and what each of its characters takes. -/
theorem length_quote (s : String) : (quote s).length = 2 + stringWidth s := by
  have hbytes : utf8 s = s.toList.flatMap String.utf8EncodeChar := by
    rw [utf8, ← String.ofList_toList (s := s), String.toByteArray_ofList, List.utf8Encode,
      List.toList_data_toByteArray, String.toList_ofList]
  rw [quote, hbytes, List.flatMap_assoc, List.length_cons, List.length_append,
    List.length_singleton, List.length_flatMap]
  exact Nat.add_comm (stringWidth s) 2

/-- A quoted string is read back. -/
theorem readString_quote (s : String) (rest : List UInt8) :
    readString ((utf8 s).flatMap escape ++ 34 :: rest) = some (s, rest) := by
  have hfuel : (utf8 s).length < ((utf8 s).flatMap escape ++ 34 :: rest).length + 1 := by
    have := length_flatMap_escape (utf8 s)
    rw [List.length_append]
    omega
  rw [readString, readChars_escape rest (utf8 s) _ hfuel]
  show (ofUtf8 (utf8 s)).bind _ = _
  rw [ofUtf8_utf8]
  rfl

/-! ## Numbers -/

/-- The decimal digits of `n`, the most significant first. -/
def decimal (n : Nat) : List UInt8 :=
  if n = 0 then [48] else (Nat.digits 10 n).reverse.map fun d => UInt8.ofNat (48 + d)

/-- Is the byte a decimal digit? -/
def isDigit (b : UInt8) : Bool := 48 ≤ b && b ≤ 57

/-- Read an unsigned integer.  A number does not start with a zero, unless it is zero. -/
def readNat (bs : List UInt8) : Option (Nat × List UInt8) :=
  let ds := bs.takeWhile isDigit
  if ds = [] then none
  else if ds.head? = some 48 ∧ ds ≠ [48] then none
  else some (value 10 (ds.map fun b => b.toNat - 48), bs.dropWhile isDigit)

/-- The text does not continue a number. -/
def NoDigit (rest : List UInt8) : Prop := ∀ b, rest.head? = some b → isDigit b = false

theorem digit_toNat {d : Nat} (h : d < 10) : (UInt8.ofNat (48 + d)).toNat = 48 + d := by
  rw [UInt8.toNat_ofNat']
  exact Nat.mod_eq_of_lt (by omega)

/-- The bytes of the ten digits are digits. -/
theorem isDigit_ofNat {d : Nat} (h : d < 10) : isDigit (UInt8.ofNat (48 + d)) = true := by
  have hd := digit_toNat h
  rw [isDigit, Bool.and_eq_true, decide_eq_true_eq, decide_eq_true_eq, UInt8.le_iff_toNat_le,
    UInt8.le_iff_toNat_le, hd]
  exact ⟨Nat.le_add_right 48 d, show 48 + d ≤ 57 by omega⟩

/-- A printed number is made of digits. -/
theorem isDigit_decimal {n : Nat} : ∀ b ∈ decimal n, isDigit b = true := by
  intro b hb
  rw [decimal] at hb
  by_cases hn : n = 0
  · rw [if_pos hn] at hb
    obtain rfl := List.mem_singleton.mp hb
    rfl
  · rw [if_neg hn] at hb
    obtain ⟨d, hd, rfl⟩ := List.mem_map.mp hb
    exact isDigit_ofNat (Nat.digits_lt_base (by decide) (List.mem_reverse.mp hd))

/-- `Positional.value` reads digits in the other order than `Nat.ofDigits`. -/
theorem value_reverse (b : Nat) (ds : List Nat) : value b ds.reverse = Nat.ofDigits b ds := by
  induction ds with
  | nil => rfl
  | cons d ds ih =>
      rw [List.reverse_cons, value_append_singleton, ih, Nat.ofDigits_cons]
      ring

/-- A number below `10 ^ k` takes at most `k` digits. -/
theorem length_decimal_le {n k : Nat} (hk : 0 < k) (h : n < 10 ^ k) : (decimal n).length ≤ k := by
  rw [decimal]
  by_cases hn : n = 0
  · rw [if_pos hn]
    exact hk
  · rw [if_neg hn, List.length_map, List.length_reverse]
    exact (Nat.digits_length_le_iff (by decide) n).mpr h

/-- A printed number denotes what was printed. -/
theorem value_decimal (n : Nat) : value 10 ((decimal n).map fun b => b.toNat - 48) = n := by
  rw [decimal]
  by_cases hn : n = 0
  · rw [if_pos hn, hn]
    rfl
  · have hdigits : (Nat.digits 10 n).reverse.map ((fun b : UInt8 => b.toNat - 48) ∘
        fun d => UInt8.ofNat (48 + d)) = (Nat.digits 10 n).reverse := by
      refine (List.map_congr_left fun d hd => ?_).trans (List.map_id _)
      have hlt : d < 10 := Nat.digits_lt_base (by decide) (List.mem_reverse.mp hd)
      show (UInt8.ofNat (48 + d)).toNat - 48 = d
      rw [digit_toNat hlt, Nat.add_sub_cancel_left]
    rw [if_neg hn, List.map_map, hdigits, value_reverse, Nat.ofDigits_digits]

/-- A printed number has no leading zero. -/
theorem decimal_head {n : Nat} : ¬ ((decimal n).head? = some 48 ∧ decimal n ≠ [48]) := by
  rintro ⟨hhead, hne⟩
  rw [decimal] at hhead hne
  by_cases hn : n = 0
  · rw [if_pos hn] at hne
    exact hne rfl
  · rw [if_neg hn, List.head?_map, List.head?_reverse] at hhead
    have hne : Nat.digits 10 n ≠ [] := Nat.digits_ne_nil_iff_ne_zero.mpr hn
    rw [List.getLast?_eq_some_getLast hne] at hhead
    have hlt : (Nat.digits 10 n).getLast hne < 10 :=
      Nat.digits_lt_base (by decide) (List.getLast_mem hne)
    have hzero := congrArg UInt8.toNat (Option.some.inj hhead)
    rw [digit_toNat hlt] at hzero
    have hpos : (Nat.digits 10 n).getLast hne ≠ 0 := Nat.getLast_digit_ne_zero 10 hn
    exact hpos (by have : (48 : UInt8).toNat = 48 := rfl; omega)

theorem decimal_ne_nil (n : Nat) : decimal n ≠ [] := by
  rw [decimal]
  by_cases hn : n = 0
  · rw [if_pos hn]
    exact List.cons_ne_nil _ _
  · rw [if_neg hn, ne_eq, List.map_eq_nil_iff, List.reverse_eq_nil_iff]
    exact Nat.digits_ne_nil_iff_ne_zero.mpr hn

/-- A printed number is read back, where no digit follows it. -/
theorem readNat_decimal (n : Nat) {rest : List UInt8} (h : NoDigit rest) :
    readNat (decimal n ++ rest) = some (n, rest) := by
  have hrest : rest.takeWhile isDigit = [] ∧ rest.dropWhile isDigit = rest := by
    cases rest with
    | nil => exact ⟨rfl, rfl⟩
    | cons b rest =>
        have hb := h b rfl
        rw [List.takeWhile_cons, List.dropWhile_cons, hb]
        exact ⟨rfl, rfl⟩
  have htake : (decimal n ++ rest).takeWhile isDigit = decimal n := by
    rw [List.takeWhile_append_of_pos isDigit_decimal, hrest.1, List.append_nil]
  have hdrop : (decimal n ++ rest).dropWhile isDigit = rest := by
    rw [List.dropWhile_append_of_pos isDigit_decimal, hrest.2]
  rw [readNat, htake, hdrop, if_neg (decimal_ne_nil n), if_neg decimal_head, value_decimal]

/-! ## Values -/

mutual

/-- The compact text of a value. -/
def print : Value → List UInt8
  | .null => [110, 117, 108, 108]
  | .bool true => [116, 114, 117, 101]
  | .bool false => [102, 97, 108, 115, 101]
  | .nat n => decimal n
  | .numeral text => text
  | .str s => quote s
  | .arr items => 91 :: ((printItems items).tail ++ [93])
  | .obj fields => 123 :: ((printFields fields).tail ++ [125])

/-- Items, each after a comma. -/
def printItems : List Value → List UInt8
  | [] => []
  | v :: vs => 44 :: (print v ++ printItems vs)

/-- Fields, each after a comma. -/
def printFields : List (String × Value) → List UInt8
  | [] => []
  | (k, v) :: fs => 44 :: (quote k ++ 58 :: (print v ++ printFields fs))

end

/-- Put a comma before the first item of a non-empty list. -/
def openList (close : UInt8) (bs : List UInt8) : List UInt8 :=
  if bs.head? = some close then bs else 44 :: bs

/-- Read a fixed text that stands for a value. -/
def literal (text : List UInt8) (v : Value) (bs : List UInt8) : Option (Value × List UInt8) :=
  if text.isPrefixOf bs then some (v, bs.drop text.length) else none

mutual

/-- Read one value. -/
def read : Nat → List UInt8 → Option (Value × List UInt8)
  | 0, _ => none
  | f + 1, bs =>
      match bs.head? with
      | none => none
      | some b =>
          if b = 34 then (readString bs.tail).map fun r => (.str r.1, r.2)
          else if b = 91 then
            (readItems f (openList 93 bs.tail)).map fun r => (.arr r.1, r.2)
          else if b = 123 then
            (readFields f (openList 125 bs.tail)).map fun r => (.obj r.1, r.2)
          else if b = 110 then literal [110, 117, 108, 108] .null bs
          else if b = 116 then literal [116, 114, 117, 101] (.bool true) bs
          else if b = 102 then literal [102, 97, 108, 115, 101] (.bool false) bs
          else (readNat bs).map fun r => (.nat r.1, r.2)

/-- Read items, each after a comma, up to the closing bracket. -/
def readItems : Nat → List UInt8 → Option (List Value × List UInt8)
  | 0, _ => none
  | f + 1, bs =>
      if bs.head? = some 93 then some ([], bs.tail)
      else if bs.head? = some 44 then
        match read f bs.tail with
        | none => none
        | some (v, rest) => (readItems f rest).map fun r => (v :: r.1, r.2)
      else none

/-- Read fields, each after a comma, up to the closing brace. -/
def readFields : Nat → List UInt8 → Option (List (String × Value) × List UInt8)
  | 0, _ => none
  | f + 1, bs =>
      if bs.head? = some 125 then some ([], bs.tail)
      else if bs.head? = some 44 ∧ bs.tail.head? = some 34 then
        match readString bs.tail.tail with
        | none => none
        | some (k, rest) =>
            if rest.head? = some 58 then
              match read f rest.tail with
              | none => none
              | some (v, rest) => (readFields f rest).map fun r => ((k, v) :: r.1, r.2)
            else none
      else none

end

/-- Read a text that is one value. -/
def parse (bs : List UInt8) : Option Value :=
  match read (bs.length + 1) bs with
  | some (v, []) => some v
  | _ => none

mutual

/-- The value has no foreign numeral. -/
def Readable : Value → Prop
  | .null | .bool _ | .nat _ | .str _ => True
  | .numeral _ => False
  | .arr items => ReadableItems items
  | .obj fields => ReadableFields fields

/-- No item has a foreign numeral. -/
def ReadableItems : List Value → Prop
  | [] => True
  | v :: vs => Readable v ∧ ReadableItems vs

/-- No field has a foreign numeral. -/
def ReadableFields : List (String × Value) → Prop
  | [] => True
  | (_, v) :: fs => Readable v ∧ ReadableFields fs

end

/-! ## The round trip -/

theorem head_decimal (n : Nat) (rest : List UInt8) :
    ∃ b, (decimal n ++ rest).head? = some b ∧ isDigit b = true := by
  match hd : decimal n, decimal_ne_nil n with
  | b :: bs, _ => exact ⟨b, rfl, isDigit_decimal b (hd ▸ List.mem_cons_self)⟩

/-- No value starts with a closing bracket or brace. -/
theorem print_head {v : Value} (h : Readable v) (rest : List UInt8) :
    ∃ b, (print v ++ rest).head? = some b ∧ b ≠ 93 ∧ b ≠ 125 := by
  cases v with
  | null | str | arr | obj => exact ⟨_, rfl, by decide, by decide⟩
  | bool b => cases b <;> exact ⟨_, rfl, by decide, by decide⟩
  | nat n =>
      obtain ⟨b, hhead, hdigit⟩ := head_decimal n rest
      refine ⟨b, hhead, ?_, ?_⟩ <;> rintro rfl <;> exact absurd hdigit (by decide)
  | numeral => exact absurd h (by unfold Readable; exact id)

/-- A text that starts with another byte does not go on with a digit. -/
theorem noDigit_cons {b : UInt8} (rest : List UInt8) (h : isDigit b = false) :
    NoDigit (b :: rest) := by
  intro c hc
  obtain rfl := Option.some.inj hc
  exact h

/-- What follows an item is a comma or the closing bracket. -/
theorem noDigit_items (vs : List Value) (rest : List UInt8) :
    NoDigit (printItems vs ++ 93 :: rest) := by
  cases vs with
  | nil => exact noDigit_cons rest (by decide)
  | cons v vs => exact noDigit_cons _ (by decide)

theorem noDigit_fields (fs : List (String × Value)) (rest : List UInt8) :
    NoDigit (printFields fs ++ 125 :: rest) := by
  cases fs with
  | nil => exact noDigit_cons rest (by decide)
  | cons p fs => exact noDigit_cons _ (by decide)

theorem read_nat {n f : Nat} {rest : List UInt8} (h : NoDigit rest) :
    read (f + 1) (decimal n ++ rest) = some (.nat n, rest) := by
  obtain ⟨b, hhead, hdigit⟩ := head_decimal n rest
  have hne : b ≠ 34 ∧ b ≠ 91 ∧ b ≠ 123 ∧ b ≠ 110 ∧ b ≠ 116 ∧ b ≠ 102 := by
    refine ⟨?_, ?_, ?_, ?_, ?_, ?_⟩ <;> rintro rfl <;> exact absurd hdigit (by decide)
  obtain ⟨h34, h91, h123, h110, h116, h102⟩ := hne
  rw [read, hhead]
  dsimp only
  rw [if_neg h34, if_neg h91, if_neg h123, if_neg h110, if_neg h116, if_neg h102,
    readNat_decimal n h]
  rfl

/-- The comma that the printer dropped is put back before the items. -/
theorem openList_items {vs : List Value} (h : ReadableItems vs) (rest : List UInt8) :
    openList 93 (((printItems vs).tail ++ [93]) ++ rest) = printItems vs ++ 93 :: rest := by
  rw [List.append_assoc, List.singleton_append]
  cases vs with
  | nil => rfl
  | cons v vs =>
      rw [ReadableItems] at h
      obtain ⟨b, hhead, hne, -⟩ := print_head h.1 (printItems vs ++ 93 :: rest)
      show openList 93 ((print v ++ printItems vs) ++ 93 :: rest) = _
      rw [List.append_assoc, openList, hhead, if_neg (fun e => hne (Option.some.inj e)),
        printItems, List.cons_append, List.append_assoc]

/-- The comma that the printer dropped is put back before the fields. -/
theorem openList_fields (fs : List (String × Value)) (rest : List UInt8) :
    openList 125 (((printFields fs).tail ++ [125]) ++ rest) = printFields fs ++ 125 :: rest := by
  rw [List.append_assoc, List.singleton_append]
  cases fs with
  | nil => rfl
  | cons p fs => rfl

theorem readItems_comma (f : Nat) (bs : List UInt8) :
    readItems (f + 1) (44 :: bs) =
      match read f bs with
      | none => none
      | some (v, rest) => (readItems f rest).map fun r => (v :: r.1, r.2) := rfl

theorem readFields_comma (f : Nat) (bs : List UInt8) :
    readFields (f + 1) (44 :: 34 :: bs) =
      match readString bs with
      | none => none
      | some (k, rest) =>
          if rest.head? = some 58 then
            match read f rest.tail with
            | none => none
            | some (v, rest) => (readFields f rest).map fun r => ((k, v) :: r.1, r.2)
          else none := rfl

mutual

/-- **A printed value is read back**, up to where it ends. -/
theorem read_print : ∀ (v : Value) (f : Nat) (rest : List UInt8), Readable v → NoDigit rest →
    (print v).length < f → read f (print v ++ rest) = some (v, rest)
  | _, 0, _, _, _, hf => absurd hf (Nat.not_lt_zero _)
  | .null, _ + 1, _, _, _, _ => rfl
  | .bool true, _ + 1, _, _, _, _ => rfl
  | .bool false, _ + 1, _, _, _, _ => rfl
  | .nat _, _ + 1, _, _, hrest, _ => read_nat hrest
  | .numeral _, _ + 1, _, h, _, _ => absurd h (by unfold Readable; exact id)
  | .str s, f + 1, rest, _, _, _ => by
      show (readString (((utf8 s).flatMap escape ++ [34]) ++ rest)).map _ = _
      rw [List.append_assoc, List.singleton_append, readString_quote s rest]
      rfl
  | .arr items, f + 1, rest, h, _, hf => by
      rw [Readable] at h
      -- The fuel is more than the text, and the items are less of it.
      have hitems := readItems_print items f rest h (by
        rw [print, List.length_cons, List.length_append, List.length_tail] at hf
        cases items <;> simp only [printItems, List.length_cons, List.length_nil] at hf ⊢ <;> omega)
      show (readItems f (openList 93 (((printItems items).tail ++ [93]) ++ rest))).map _ = _
      rw [openList_items h, hitems]
      rfl
  | .obj fields, f + 1, rest, h, _, hf => by
      rw [Readable] at h
      have hfields := readFields_print fields f rest h (by
        rw [print, List.length_cons, List.length_append, List.length_tail] at hf
        cases fields <;> simp only [printFields, List.length_cons, List.length_nil] at hf ⊢ <;>
          omega)
      show (readFields f (openList 125 (((printFields fields).tail ++ [125]) ++ rest))).map _ = _
      rw [openList_fields, hfields]
      rfl

/-- Printed items are read back. -/
theorem readItems_print : ∀ (vs : List Value) (f : Nat) (rest : List UInt8), ReadableItems vs →
    (printItems vs).length < f → readItems f (printItems vs ++ 93 :: rest) = some (vs, rest)
  | _, 0, _, _, hf => absurd hf (Nat.not_lt_zero _)
  | [], _ + 1, _, _, _ => rfl
  | v :: vs, f + 1, rest, h, hf => by
      rw [printItems, List.length_cons, List.length_append] at hf
      rw [ReadableItems] at h
      have hv := read_print v f (printItems vs ++ 93 :: rest) h.1 (noDigit_items vs rest)
        (by omega)
      have hvs := readItems_print vs f rest h.2 (by omega)
      rw [printItems, List.cons_append, List.append_assoc, readItems_comma, hv]
      dsimp only
      rw [hvs]
      rfl

/-- Printed fields are read back. -/
theorem readFields_print : ∀ (fs : List (String × Value)) (f : Nat) (rest : List UInt8),
    ReadableFields fs → (printFields fs).length < f →
      readFields f (printFields fs ++ 125 :: rest) = some (fs, rest)
  | _, 0, _, _, hf => absurd hf (Nat.not_lt_zero _)
  | [], _ + 1, _, _, _ => rfl
  | (k, v) :: fs, f + 1, rest, h, hf => by
      rw [printFields, List.length_cons, List.length_append, List.length_cons,
        List.length_append] at hf
      rw [ReadableFields] at h
      have hk := readString_quote k (58 :: (print v ++ (printFields fs ++ 125 :: rest)))
      have hv := read_print v f (printFields fs ++ 125 :: rest) h.1 (noDigit_fields fs rest)
        (by omega)
      have hfs := readFields_print fs f rest h.2 (by omega)
      simp only [printFields, quote, List.cons_append, List.append_assoc, List.nil_append]
      rw [readFields_comma, hk]
      dsimp only
      rw [if_pos List.head?_cons, List.tail_cons, hv]
      dsimp only
      rw [hfs]
      rfl

end

/-- **THE TEXT ROUND TRIP.** -/
theorem parse_print {v : Value} (h : Readable v) : parse (print v) = some v := by
  have hread := read_print v ((print v).length + 1) [] h (by intro b hb; exact nomatch hb)
    (Nat.lt_succ_self _)
  rw [List.append_nil] at hread
  rw [parse, hread]

end Json
