import Javelet.Obligation

namespace Javelet

inductive Json where
  | bool (value : Bool)
  | nat (value : Nat)
  | string (value : String)
  | array (items : List Json)
  | object (fields : List (String × Json))

namespace Json

/-- Only quotes, backslashes and control characters are escaped. -/
def escape (c : Char) : List Char :=
  if c = '"' then ['\\', '"']
  else if c = '\\' then ['\\', '\\']
  else if c = '\x08' then ['\\', 'b']
  else if c = '\t' then ['\\', 't']
  else if c = '\n' then ['\\', 'n']
  else if c = '\x0c' then ['\\', 'f']
  else if c = '\r' then ['\\', 'r']
  else if c.toNat < 16 then ['\\', 'u', '0', '0', '0', Nat.digitChar c.toNat]
  else if c.toNat < 32 then ['\\', 'u', '0', '0', '1', Nat.digitChar (c.toNat - 16)]
  else [c]

def quoted (text : String) : String :=
  String.ofList ('"' :: text.toList.flatMap escape ++ ['"'])

mutual

/-- On a single line, without blanks. -/
def render : Json → String
  | bool true => "true"
  | bool false => "false"
  | nat value => toString value
  | string value => quoted value
  | array items => "[" ++ ",".intercalate (renderItems items) ++ "]"
  | object fields => "\x7b" ++ ",".intercalate (renderFields fields) ++ "\x7d"

def renderItems : List Json → List String
  | [] => []
  | item :: rest => render item :: renderItems rest

def renderFields : List (String × Json) → List String
  | [] => []
  | (name, value) :: rest => (quoted name ++ ":" ++ render value) :: renderFields rest

end

end Json

namespace Obligation

mutual

/-- Fields stand in alphabetical order. -/
def toJson : Obligation → Json
  | leaf label holds =>
    .object [("holds", .bool holds), ("kind", .string "leaf"), ("label", .string label)]
  | group label children =>
    .object [("children", .array (toJsonAll children)), ("kind", .string "group"),
      ("label", .string label)]

def toJsonAll : List Obligation → List Json
  | [] => []
  | child :: rest => toJson child :: toJsonAll rest

end

end Obligation

def Verdict.toJson (verdict : Verdict) : Json :=
  .object [("root", verdict.root.toJson), ("well_typed", .bool verdict.wellTyped)]

end Javelet
