/-!
# Shell scripts

The language that tools on a machine are often written in, as a tree: words with their quotes and
what is to be put in for parameters, and commands made of words.
-/
namespace SmaliBuild.Shell

/-- What is done with the value of a parameter.  With `orEmpty` an empty value counts as none. -/
inductive Change where
  | asItIs
  | length
  | default (orEmpty : Bool)
  | assigned (orEmpty : Bool)
  | replaced (orEmpty : Bool)
  | withoutStart (longest : Bool)
  | withoutEnd (longest : Bool)
deriving DecidableEq, Repr

/-- A part of a word; what is quoted is taken as it is. -/
inductive Piece where
  | text (chars : List Char) (quoted : Bool)
  | parameter (name : String) (change : Change) (operand : List Piece) (quoted : Bool)
  | arithmetic (expression : List Piece) (quoted : Bool)
  /-- what a script prints -/
  | substitution (script : List Char) (quoted : Bool)
deriving Inhabited

abbrev Word := List Piece

inductive RedirectionKind where
  | input
  | output
  | appending
  | duplicate
deriving DecidableEq, Repr

structure Redirection where
  descriptor : Nat
  kind : RedirectionKind
  target : Word

inductive Command where
  | nothing
  | simple (line : Nat) (assignments : List (String × Word)) (words : List Word)
      (redirections : List Redirection)
  | sequence (first second : Command)
  | both (first second : Command)
  | either (first second : Command)
  | not (c : Command)
  | pipeline (first second : Command)
  | choose (condition yes no : Command)
  /-- goes on as long as the condition comes out as `expected` -/
  | loop (expected : Bool) (condition body : Command)
  /-- once for each word, or for each argument of the script -/
  | each (variable_ : String) (words : Option (List Word)) (body : Command)
  | select (subject : Word) (branches : List (List Word × Command))
  | apart (c : Command)
  | redirected (line : Nat) (c : Command) (redirections : List Redirection)
deriving Inhabited

end SmaliBuild.Shell
