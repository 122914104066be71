namespace TensorLowering.Text

/-- A JSON document. Numbers hold their text, and the members of an object keep their order. -/
inductive Json where
  | null
  | number (text : String)
  | string (value : String)
  | array (items : List Json)
  | object (members : List (String × Json))

namespace Json

def ofNat (value : Nat) : Json := .number (toString value)

def ofOption {α : Type} (encode : α → Json) : Option α → Json
  | none => .null
  | some value => encode value

def member? (name : String) : Json → Option Json
  | .object members => (members.find? fun member => member.1 = name).map (·.2)
  | _ => none

/-- Quotes, backslashes and control characters are escaped, all else stands as it is. -/
def escape (c : Char) : List Char :=
  match c with
  | '"' => ['\\', '"']
  | '\\' => ['\\', '\\']
  | '\n' => ['\\', 'n']
  | '\r' => ['\\', 'r']
  | '\t' => ['\\', 't']
  | c =>
    if c.toNat = 8 then ['\\', 'b']
    else if c.toNat = 12 then ['\\', 'f']
    else if c.toNat < 32 then
      ['\\', 'u', '0', '0', (c.toNat / 16).digitChar, (c.toNat % 16).digitChar]
    else [c]

def quote (value : String) : String :=
  "\"" ++ String.ofList (value.toList.flatMap escape) ++ "\""

/-- A line break and two blanks for each level of nesting. -/
def newline (depth : Nat) : String := "\n" ++ String.ofList (.replicate (2 * depth) ' ')

mutual

/-- Writes a document with one item or member a line; empty arrays and objects stay on theirs. -/
def render (depth : Nat) : Json → String
  | .null => "null"
  | .number text => text
  | .string value => quote value
  | .array [] => "[]"
  | .array items => "[" ++ renderItems (depth + 1) "" items ++ newline depth ++ "]"
  | .object [] => "\x7b\x7d"
  | .object members =>
    "\x7b" ++ renderMembers (depth + 1) "" members ++ newline depth ++ "\x7d"

/-- Writes each item on a line of its own, after `separator`. -/
def renderItems (depth : Nat) (separator : String) : List Json → String
  | [] => ""
  | item :: rest =>
    separator ++ newline depth ++ item.render depth ++ renderItems depth "," rest

def renderMembers (depth : Nat) (separator : String) : List (String × Json) → String
  | [] => ""
  | (name, value) :: rest =>
    separator ++ newline depth ++ quote name ++ ": " ++ value.render depth ++
      renderMembers depth "," rest

end

def pretty (document : Json) : String := document.render 0

end Json

end TensorLowering.Text
