import Mathlib.Data.List.Basic

/-! JSON documents: how Go decodes struct fields from them, and what a `JSONB` column keeps. -/

namespace Sluice

mutual

/-- A JSON value, whose numbers keep the decimal places they are written with. -/
inductive Json where
  | null
  | bool (b : Bool)
  | number (mantissa : Int) (scale : Nat)
  | string (s : String)
  | array (items : JsonItems)
  | object (fields : JsonFields)
  deriving DecidableEq

/-- The items of an array. -/
inductive JsonItems where
  | nil
  | cons (item : Json) (rest : JsonItems)
  deriving DecidableEq

/-- The named members of an object, in document order. -/
inductive JsonFields where
  | nil
  | cons (name : String) (value : Json) (rest : JsonFields)
  deriving DecidableEq

end

/-- The characters that fold to a lowercase ASCII letter, two of which lie outside ASCII. -/
def foldChar (c : Char) : Char :=
  -- The long s and the Kelvin sign.
  if c = '\u017F' then 's' else if c = '\u212A' then 'k' else c.toLower

/-- Whether a member name addresses a struct field, which ignores case. -/
def namesField (name field : String) : Bool :=
  name.toList.map foldChar == field.toList.map foldChar

/-- A number without decimal places that lies within the bounds of an integer type. -/
def Json.integer? (low high : Int) : Json → Option Int
  | .number mantissa 0 => if low ≤ mantissa ∧ mantissa ≤ high then some mantissa else none
  | _ => none

/-- Decoding into a pointer field, where `null` clears it. -/
def decodePointer {α : Type} (decode : Json → Option α) : Json → Option (Option α)
  | .null => some none
  | value => (decode value).map some

/-- Decoding into a string field, where `null` leaves the old value. -/
def decodeString (old : String) : Json → Option String
  | .null => some old
  | .string s => some s
  | _ => none

/-- Decodes the members of an object one by one, in document order. -/
def decodeMembers {α : Type} (set : α → String → Json → Option α) (old : α) :
    JsonFields → Option α
  | .nil => some old
  | .cons name value rest => (set old name value).bind fun new => decodeMembers set new rest

/-- Decoding into an `*int16` field. -/
def decodeInt16 (value : Json) : Option (Option Int16) :=
  decodePointer (fun v => (v.integer? (-32768) 32767).map Int16.ofInt) value

/-- Decoding into an `*int` field. -/
def decodeInt (value : Json) : Option (Option Int) :=
  decodePointer (Json.integer? (-9223372036854775808) 9223372036854775807) value

/-- The order in which a column keeps the members of an object, with shorter names first. -/
def nameBefore (name other : String) : Bool :=
  if name.utf8ByteSize = other.utf8ByteSize then decide (name < other)
  else decide (name.utf8ByteSize < other.utf8ByteSize)

/-- The members of an object, in document order. -/
def JsonFields.members : JsonFields → List (String × Json)
  | .nil => []
  | .cons name value rest => (name, value) :: rest.members

/-- Puts a member in its place. -/
def JsonFields.file (name : String) (value : Json) : JsonFields → JsonFields
  | .nil => .cons name value .nil
  | .cons other found rest =>
    if nameBefore name other then .cons name value (.cons other found rest)
    else .cons other found (rest.file name value)

mutual

/-- A document as a column holds it. -/
def Json.stored : Json → Json
  | .array items => .array items.stored
  | .object fields => .object fields.stored
  | .null => .null
  | .bool b => .bool b
  | .number mantissa scale => .number mantissa scale
  | .string s => .string s

def JsonItems.stored : JsonItems → JsonItems
  | .nil => .nil
  | .cons item rest => .cons item.stored rest.stored

def JsonFields.stored : JsonFields → JsonFields
  | .nil => .nil
  | .cons name value rest =>
    -- Of several members with the same name the last one stays.
    if rest.members.any (·.1 == name) then rest.stored else rest.stored.file name value.stored

end

end Sluice
