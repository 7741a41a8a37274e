namespace Inlay

/-- The literal that a code body is escaped for. -/
inductive Escape
  | none
  | singleQuote
  | doubleQuote
  deriving DecidableEq, Repr, Inhabited

namespace Escape

def name : Escape → String
  | .none => "none"
  | .singleQuote => "single_quote"
  | .doubleQuote => "double_quote"

def all : List Escape := [.none, .singleQuote, .doubleQuote]

def ofName? (s : String) : Option Escape := all.find? (·.name == s)

theorem ofName?_name (e : Escape) : ofName? e.name = some e := by cases e <;> decide

def quote? : Escape → Option Char
  | .none => Option.none
  | .singleQuote => some '\''
  | .doubleQuote => some '"'

def escapeFor (q : Char) (code : List Char) : List Char :=
  code.flatMap fun c => if c = '\\' ∨ c = q then ['\\', c] else [c]

def apply (e : Escape) (code : List Char) : List Char :=
  match e.quote? with
  | Option.none => code
  | some q => escapeFor q code

end Escape

namespace Template

def placeholder : List Char := ['{', 'c', 'o', 'd', 'e', '}']

/-- The parts of a template between its placeholders, found from left to right; there is always at
least one. -/
def parts (template : List Char) : List (List Char) :=
  match template with
  | [] => [[]]
  | c :: cs =>
    if placeholder.isPrefixOf (c :: cs) then [] :: parts (cs.drop 5)
    else
      match parts cs with
      | [] => [[c]]
      | part :: rest => (c :: part) :: rest
termination_by template.length
decreasing_by all_goals simp; try omega

/-- The template with `body` in every placeholder. What is put in is not looked at again. -/
def fill (template body : List Char) : List Char := body.intercalate (parts template)

def expand (template : String) (e : Escape) (code : String) : String :=
  String.ofList (fill template.toList (e.apply code.toList))

end Template

end Inlay
