import RequestRouter.Text.Coding
/-!
Writing JSON with one field a line, two more blanks for each level.
-/
namespace RequestRouter.Data.Json

open RequestRouter.Text

inductive Value where
  | null
  | number (n : Nat)
  | text (s : String)
  | record (fields : List (String × Value))

/-- Control characters have escapes; all other characters stand for themselves. -/
def escapeChar (c : Char) : List Char :=
  match c with
  | '"' => ['\\', '"']
  | '\\' => ['\\', '\\']
  | '\x08' => ['\\', 'b']
  | '\x0c' => ['\\', 'f']
  | '\n' => ['\\', 'n']
  | '\r' => ['\\', 'r']
  | '\t' => ['\\', 't']
  | c =>
    if c.toNat < 32 then ['\\', 'u', '0', '0', Hex.digit (c.toNat / 16), (Hex.digit (c.toNat % 16)).toLower]
    else [c]

def quote (s : String) : String := String.ofList ('"' :: s.toList.flatMap escapeChar ++ ['"'])

def indentation (level : Nat) : String := String.ofList (List.replicate (2 * level) ' ')

mutual

def Value.pretty (level : Nat) : Value → String
  | null => "null"
  | number n => toString n
  | text s => quote s
  | record [] => "\x7b\x7d"
  | record (f :: fs) =>
    "\x7b\n" ++ ",\n".intercalate (prettyFields (level + 1) (f :: fs)) ++ "\n" ++ indentation level ++ "\x7d"

def Value.prettyFields (level : Nat) : List (String × Value) → List String
  | [] => []
  | (name, v) :: rest => (indentation level ++ quote name ++ ": " ++ v.pretty level) :: prettyFields level rest

end

end RequestRouter.Data.Json
