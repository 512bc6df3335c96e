import DigPex.Entry

/-!
# JSON values and their compact text

The value type and the compact printer the wire rests on: no blanks, strings
escaped only where the grammar requires it.
-/

namespace DigPex

/-- A JSON number in the three forms the serializer distinguishes. -/
inductive JsonNumber where
  | posInt (value : Nat)
  | negInt (magnitude : Nat)
  | float (literal : String)
  deriving DecidableEq, Repr

inductive Json where
  | null
  | bool (value : Bool)
  | number (value : JsonNumber)
  | string (text : String)
  | array (items : List Json)
  | object (fields : List (String × Json))

namespace JsonNumber

def render : JsonNumber → List UInt8
  | posInt value => utf8 (Nat.repr value)
  | negInt magnitude => utf8 ("-" ++ Nat.repr magnitude)
  | float literal => utf8 literal

end JsonNumber

namespace Json

/-- The lowercase hexadecimal digit of a number below sixteen. -/
def hexDigit (value : Nat) : UInt8 :=
  UInt8.ofNat (if value < 10 then 48 + value else 87 + value)

/-- One character inside a JSON string: quote, backslash and the control
characters are escaped, everything else is its UTF-8 bytes. -/
def escapeChar (character : Char) : List UInt8 :=
  if character = '"' then [92, 34]
  else if character = '\\' then [92, 92]
  else if character.toNat = 8 then [92, 98]
  else if character.toNat = 9 then [92, 116]
  else if character.toNat = 10 then [92, 110]
  else if character.toNat = 12 then [92, 102]
  else if character.toNat = 13 then [92, 114]
  else if character.toNat < 32 then
    [92, 117, 48, 48, hexDigit (character.toNat / 16),
      hexDigit (character.toNat % 16)]
  else String.utf8EncodeChar character

/-- A quoted JSON string. -/
def renderString (text : String) : List UInt8 :=
  [34] ++ text.toList.flatMap escapeChar ++ [34]

/-- Items joined by commas between two brackets. -/
def bracketed (opening closing : UInt8) (items : List (List UInt8)) :
    List UInt8 :=
  [opening] ++ List.intercalate [44] items ++ [closing]

mutual

/-- The compact text of a value, as bytes. -/
def render : Json → List UInt8
  | null => utf8 "null"
  | bool true => utf8 "true"
  | bool false => utf8 "false"
  | number value => value.render
  | string text => renderString text
  | array items => bracketed 91 93 (renderItems items)
  | object fields => bracketed 123 125 (renderFields fields)

/-- The texts of the items of an array. -/
def renderItems : List Json → List (List UInt8)
  | [] => []
  | item :: items => item.render :: renderItems items

/-- The texts of the fields of an object. -/
def renderFields : List (String × Json) → List (List UInt8)
  | [] => []
  | (name, value) :: fields =>
      (renderString name ++ [58] ++ value.render) :: renderFields fields

end

@[simp] theorem renderItems_eq_map (items : List Json) :
    renderItems items = items.map render := by
  induction items with
  | nil => rfl
  | cons item items induction => simp [renderItems, induction]

@[simp] theorem renderFields_eq_map (fields : List (String × Json)) :
    renderFields fields = fields.map fun field =>
      renderString field.1 ++ [58] ++ field.2.render := by
  induction fields with
  | nil => rfl
  | cons field fields induction => simp [renderFields, induction]

/-- Bytes of a bracketed list: its items, the commas between them and the two
brackets. -/
def bracketedLength (lengths : List Nat) : Nat :=
  2 + lengths.sum + (lengths.length - 1)

theorem length_intercalate_comma (items : List (List UInt8)) :
    (List.intercalate [44] items).length =
      (items.map List.length).sum + (items.length - 1) := by
  induction items with
  | nil => simp [List.intercalate]
  | cons item items induction =>
      cases items with
      | nil => simp [List.intercalate]
      | cons next items =>
          simp only [List.intercalate, List.intersperse_cons_cons]
            at induction ⊢
          simp at induction ⊢
          omega

theorem length_bracketed (opening closing : UInt8)
    (items : List (List UInt8)) :
    (bracketed opening closing items).length =
      bracketedLength (items.map List.length) := by
  simp [bracketed, bracketedLength, length_intercalate_comma]
  omega

theorem length_render_array (items : List Json) :
    (array items).render.length =
      bracketedLength (items.map fun item => item.render.length) := by
  simp only [render, length_bracketed, renderItems_eq_map, List.map_map]
  rfl

theorem length_render_object (fields : List (String × Json)) :
    (object fields).render.length =
      bracketedLength (fields.map fun field =>
        (renderString field.1).length + 1 + field.2.render.length) := by
  simp only [render, length_bracketed, renderFields_eq_map, List.map_map]
  congr 2
  funext field
  simp only [Function.comp, List.length_append, List.length_cons,
    List.length_nil]

theorem escapeChar_of_hex {character : Char}
    (hex : (character.isDigit ||
      ('a' ≤ character && character ≤ 'f')) = true) :
    escapeChar character = String.utf8EncodeChar character := by
  have low : 48 ≤ character.toNat ∧ character.toNat ≠ 92 := by
    simp only [Char.isDigit, Bool.or_eq_true, Bool.and_eq_true,
      decide_eq_true_eq, Char.le_def, UInt32.le_iff_toNat_le] at hex
    have code : character.toNat = character.val.toNat := rfl
    rcases hex with digit | letter
    · have least := digit.1
      have greatest := digit.2
      simp at least greatest
      omega
    · have least := letter.1
      simp at least
      omega
  have quote : character ≠ '"' := by
    rintro rfl
    exact absurd low.1 (by decide)
  have backslash : character ≠ '\\' := by
    rintro rfl
    exact low.2 rfl
  unfold escapeChar
  rw [if_neg quote, if_neg backslash, if_neg (by omega), if_neg (by omega),
    if_neg (by omega), if_neg (by omega), if_neg (by omega),
    if_neg (by omega)]

theorem length_renderString_of_isHex64 {id : String}
    (hex : isHex64 id = true) : (renderString id).length = 66 := by
  simp only [isHex64, Bool.and_eq_true, beq_iff_eq, List.all_eq_true] at hex
  have plain : id.toList.flatMap escapeChar = utf8 id :=
    List.flatMap_congr fun character member =>
      escapeChar_of_hex (hex.2 character member)
  simp only [renderString, plain, List.length_append, List.length_cons,
    List.length_nil, length_utf8, hex.1]

end Json

end DigPex
