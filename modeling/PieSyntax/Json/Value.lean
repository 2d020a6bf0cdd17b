/-!
# JSON values and their printed form

Numbers are integers.  Objects keep their entries in the order given; the printer writes them in
the order of their keys, by code point, one entry or element to a line and two spaces deeper than
its container.  Strings escape quotes, backslashes and control characters, and hold every other
character as itself.
-/

namespace PieSyntax

/-- A JSON value. -/
inductive Json where
  | null
  | bool (b : Bool)
  | number (n : Int)
  | string (s : String)
  | array (elements : List Json)
  | object (entries : List (String × Json))

namespace Json

/-- One character of a string. -/
def escapeChar (c : Char) : String :=
  if c = '"' then "\\\""
  else if c = '\\' then "\\\\"
  else if c = '\n' then "\\n"
  else if c = '\r' then "\\r"
  else if c = '\t' then "\\t"
  else if c = '\x08' then "\\b"
  else if c = '\x0c' then "\\f"
  else if c.toNat < 0x20 then
    "\\u00" ++ String.ofList [Nat.digitChar (c.toNat / 16), Nat.digitChar (c.toNat % 16)]
  else String.singleton c

/-- A string in its quotes. -/
def encodeString (s : String) : String :=
  s.toList.foldl (fun out c => out ++ escapeChar c) "\"" ++ "\""

/-! ## Order of keys -/

/-- Entries in the order of their keys. -/
def sortEntries {α : Type} (entries : List (String × α)) : List (String × α) :=
  entries.mergeSort fun a b => decide (a.1 ≤ b.1)

mutual

/-- The value with the entries of every object in order. -/
def sorted : Json → Json
  | .array elements => .array (sortedElements elements)
  | .object entries => .object (sortEntries (sortedEntries entries))
  | v => v

/-- Each element with its entries in order. -/
def sortedElements : List Json → List Json
  | [] => []
  | v :: vs => v.sorted :: sortedElements vs

/-- Each entry with the entries of its value in order. -/
def sortedEntries : List (String × Json) → List (String × Json)
  | [] => []
  | (k, v) :: es => (k, v.sorted) :: sortedEntries es

end

/-! ## Printing -/

/-- A line break and the indentation of the given depth. -/
def lineBreak (depth : Nat) : String := "\n" ++ String.ofList (List.replicate (2 * depth) ' ')

/-- The start of an entry: a line break and the key. -/
def entryStart (depth : Nat) (key : String) : String :=
  lineBreak depth ++ encodeString key ++ ": "

mutual

/-- Writes a value after `out`.  Its first line stands at the given depth. -/
def printAt (depth : Nat) (out : String) : Json → String
  | .null => out ++ "null"
  | .bool b => out ++ if b then "true" else "false"
  | .number n => out ++ toString n
  | .string s => out ++ encodeString s
  | .array [] => out ++ "[]"
  | .array (v :: vs) =>
    printElements (depth + 1) (printAt (depth + 1) (out ++ "[" ++ lineBreak (depth + 1)) v) vs
      ++ lineBreak depth ++ "]"
  | .object [] => out ++ "\x7b\x7d"
  | .object ((k, v) :: es) =>
    printEntries (depth + 1) (printAt (depth + 1) (out ++ "\x7b" ++ entryStart (depth + 1) k) v) es
      ++ lineBreak depth ++ "\x7d"

/-- Writes the further elements of an array. -/
def printElements (depth : Nat) (out : String) : List Json → String
  | [] => out
  | v :: vs => printElements depth (printAt depth (out ++ "," ++ lineBreak depth) v) vs

/-- Writes the further entries of an object. -/
def printEntries (depth : Nat) (out : String) : List (String × Json) → String
  | [] => out
  | (k, v) :: es => printEntries depth (printAt depth (out ++ "," ++ entryStart depth k) v) es

end

/-- The printed form of a value, with the entries of objects in the order of their keys. -/
def print (v : Json) : String := printAt 0 "" v.sorted

end Json

end PieSyntax
