import Javelet.Cursor

namespace Javelet

/-- A reader of a token stream. One that fails leaves the cursor where it stopped. -/
abbrev Parser := EStateM Error Cursor

namespace Parser
variable {α : Type}

def kind : Parser Kind := do return (← get).kind

def position : Parser Position := do return (← get).position

def previousEnd : Parser Position := do return (← get).previousEnd

/-- Steps over the current token and gives it. -/
def advance : Parser Token := modifyGet fun cursor => (cursor.current, cursor.advance)

def unexpected : Parser α := do throw (← get).unexpected

def expected (message : String) : Parser α := do throw ((← get).expected message)

def unsupported (construct : String) : Parser α := do throw ((← get).unsupported construct)

/-- Takes a token of the kind, or fails in the given way. -/
def take (expectedKind : Kind) (otherwise : Parser Token) : Parser Token := do
  if (← kind) = expectedKind then advance else otherwise

def expect (expectedKind : Kind) : Parser Token := take expectedKind unexpected

def expectPunct (p : Punct) : Parser Token := expect (.punct p)

/-- Fails on a token of the kind, which would begin what the language does not have. -/
def refuse (refused : Kind) (construct : String) : Parser Unit := do
  if (← kind) = refused then unsupported construct else return ()

/-- From a start to the end of the last token taken. -/
def spanFrom (start : Position) : Parser Span := do return ⟨start, ← previousEnd⟩

/-- Reads items until there is none, at most the given number of times. -/
def upTo (item : Parser (Option α)) : Nat → Parser (List α)
  | 0 => return []
  | n + 1 => do
    match ← item with
    | none => return []
    | some a => return a :: (← upTo item n)

/-- Reads items until there is none. An item that is there has to take a token, so the tokens ahead
bound the number of rounds. -/
def many (item : Parser (Option α)) : Parser (List α) := do
  upTo item ((← get).ahead.length + 1)

end Parser
end Javelet
