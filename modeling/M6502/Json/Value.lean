import M6502.Text.Numeral

/-!
# JSON output

Values and their written form: two spaces for each level, one element or
field a line, and nothing between the brackets of what is empty.
-/

set_option autoImplicit false

namespace M6502

open Text

inductive JsonValue where
  | bool (b : Bool)
  | number (n : Int)
  | string (s : String)
  | array (elements : List JsonValue)
  | object (fields : List (String × JsonValue))

namespace JsonValue

def escape (c : Char) : List Char :=
  if c = '"' then ['\\', '"']
  else if c = '\\' then ['\\', '\\']
  else if c.toNat = 0x08 then ['\\', 'b']
  else if c.toNat = 0x09 then ['\\', 't']
  else if c.toNat = 0x0A then ['\\', 'n']
  else if c.toNat = 0x0C then ['\\', 'f']
  else if c.toNat = 0x0D then ['\\', 'r']
  else if c.toNat < 0x20 then '\\' :: 'u' :: hexDigits 4 c.toNat
  else [c]

def quote (s : String) : String :=
  String.ofList ('"' :: s.toList.flatMap escape ++ ['"'])

def lineBreak (level : Nat) : String :=
  String.ofList ('\n' :: List.replicate (2 * level) ' ')

mutual

def render (level : Nat) : JsonValue → List String
  | .bool b => [if b then "true" else "false"]
  | .number n => [toString n]
  | .string s => [quote s]
  | .array [] => ["[]"]
  | .array (v :: vs) =>
    "[" :: lineBreak (level + 1) :: render (level + 1) v ++ renderElements (level + 1) vs ++
      [lineBreak level, "]"]
  | .object [] => ["\x7b\x7d"]
  | .object ((k, v) :: fs) =>
    "\x7b" :: lineBreak (level + 1) :: quote k :: ": " :: render (level + 1) v ++
      renderFields (level + 1) fs ++ [lineBreak level, "\x7d"]

def renderElements (level : Nat) : List JsonValue → List String
  | [] => []
  | v :: vs => "," :: lineBreak level :: render level v ++ renderElements level vs

def renderFields (level : Nat) : List (String × JsonValue) → List String
  | [] => []
  | (k, v) :: fs =>
    "," :: lineBreak level :: quote k :: ": " :: render level v ++ renderFields level fs

end

def text (v : JsonValue) : String :=
  String.join (v.render 0)

end JsonValue

end M6502
