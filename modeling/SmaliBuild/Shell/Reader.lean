import SmaliBuild.Shell.Script
/-!
# Reading shell scripts

`Script.read?` reads a script to its tree; none if it is not well formed.  Every reader takes the
rest of the script and answers what it read and what is left.  The readers that call each other go
down by one in `steps`, which is at the start more than the script has characters, several times
over.
-/
namespace SmaliBuild.Shell

def isMeta (c : Char) : Bool := " \t\n;&|<>()".toList.contains c

def isNameStart (c : Char) : Bool := c.isAlpha || c == '_'

def isNameChar (c : Char) : Bool := c.isAlphanum || c == '_'

def isVariableName (s : List Char) : Bool :=
  match s with
  | [] => false
  | c :: rest => isNameStart c && rest.all isNameChar

/-- The text before the next `c`, and what follows that. -/
def until? (c : Char) (s : List Char) : Option (List Char × List Char) :=
  match s.dropWhile (· ≠ c) with
  | [] => none
  | _ :: rest => some (s.takeWhile (· ≠ c), rest)

/-- The text before the parenthesis that closes the outermost of `level + 1` open ones.
Parentheses between quotes do not count. -/
def enclosed? : (quote : Option Char) → (level : Nat) → List Char → Option (List Char × List Char)
  | _, _, [] => none
  | quote, level, '\\' :: c :: rest =>
    (enclosed? quote level rest).map fun (t, r) => ('\\' :: c :: t, r)
  | some q, level, c :: rest =>
    (enclosed? (if c = q then none else some q) level rest).map fun (t, r) => (c :: t, r)
  | none, level, c :: rest =>
    if c = ')' then
      match level with
      | 0 => some ([], rest)
      | level + 1 => (enclosed? none level rest).map fun (t, r) => (c :: t, r)
    else
      (enclosed? (if c = '\'' ∨ c = '"' then some c else none)
        (if c = '(' then level + 1 else level) rest).map fun (t, r) => (c :: t, r)

/-- The name of a parameter: a variable, a number or a special character. -/
def parameterName? (braces : Bool) : List Char → Option (String × List Char)
  | [] => none
  | c :: rest =>
    if isNameStart c then
      some (String.ofList (c :: rest.takeWhile isNameChar), rest.dropWhile isNameChar)
    else if c.isDigit then
      if braces then
        some (String.ofList (c :: rest.takeWhile Char.isDigit), rest.dropWhile Char.isDigit)
      else some (c.toString, rest)
    else if "@*#?$!-".toList.contains c then some (c.toString, rest)
    else none

/-- What stands between a parameter's name and the operand or the closing brace. -/
def change? : List Char → Option (Change × List Char)
  | ':' :: '-' :: rest => some (.default true, rest)
  | ':' :: '=' :: rest => some (.assigned true, rest)
  | ':' :: '+' :: rest => some (.replaced true, rest)
  | '-' :: rest => some (.default false, rest)
  | '=' :: rest => some (.assigned false, rest)
  | '+' :: rest => some (.replaced false, rest)
  | '#' :: '#' :: rest => some (.withoutStart true, rest)
  | '#' :: rest => some (.withoutStart false, rest)
  | '%' :: '%' :: rest => some (.withoutEnd true, rest)
  | '%' :: rest => some (.withoutEnd false, rest)
  | s@('}' :: _) => some (.asItIs, s)
  | _ => none

/-- A backslash before the character keeps its meaning between double quotes. -/
def isEscapable (c : Char) : Bool := "$`\"\\".toList.contains c

mutual

/-- The pieces up to an unquoted character that `stop` names, which is left, or up to the end. -/
def pieces? : (steps : Nat) → (quoted : Bool) → (stop : Char → Bool) → List Char →
    Option (Word × List Char)
  | 0, _, _, _ => none
  | steps + 1, quoted, stop, s =>
    let after (p : Piece) (rest : List Char) : Option (Word × List Char) :=
      (pieces? steps quoted stop rest).map fun (w, r) => (p :: w, r)
    match s with
    | [] => some ([], [])
    | '\\' :: '\n' :: rest => pieces? steps quoted stop rest
    | '\\' :: c :: rest =>
      after (.text (if quoted && !isEscapable c then ['\\', c] else [c]) true) rest
    | c :: rest =>
      if stop c then some ([], s)
      else if c = '\'' && !quoted then do
        let (t, rest) ← until? '\'' rest
        after (.text t true) rest
      else if c = '"' then do
        let (inner, rest) ← pieces? steps true (· == '"') rest
        match rest with
        | _ :: rest =>
          let (w, r) ← pieces? steps quoted stop rest
          return ((if inner.isEmpty then [.text [] true] else inner) ++ w, r)
        | [] => none
      else if c = '$' then do
        let (p, rest) ← dollar? steps quoted rest
        after p rest
      else if c = '`' then do
        let (t, rest) ← until? '`' rest
        after (.substitution t quoted) rest
      else after (.text [c] quoted) rest

/-- What a dollar sign introduces, given what follows it. -/
def dollar? : (steps : Nat) → (quoted : Bool) → List Char → Option (Piece × List Char)
  | 0, _, _ => none
  | steps + 1, quoted, s =>
    match s with
    | '(' :: '(' :: rest => do
      let (t, rest) ← enclosed? none 1 rest
      let (w, _) ← pieces? steps true (fun _ => false) t.dropLast
      return (.arithmetic w quoted, rest)
    | '(' :: rest => do
      let (t, rest) ← enclosed? none 0 rest
      return (.substitution t quoted, rest)
    | '{' :: '#' :: c :: rest =>
      if c = '}' then some (.parameter "#" .asItIs [] quoted, rest)
      else do
        let (name, rest) ← parameterName? true (c :: rest)
        match rest with
        | '}' :: rest => return (.parameter name .length [] quoted, rest)
        | _ => none
    | '{' :: rest => do
      let (name, rest) ← parameterName? true rest
      let (change, rest) ← change? rest
      let isText := match change with
        | .default _ | .assigned _ | .replaced _ => true
        | _ => false
      let (operand, rest) ← pieces? steps (quoted && isText) (· == '}') rest
      match rest with
      | _ :: rest => return (.parameter name change operand quoted, rest)
      | [] => none
    | _ =>
      match parameterName? false s with
      | some (name, rest) => some (.parameter name .asItIs [] quoted, rest)
      | none => some (.text ['$'] quoted, s)

end

/-- Blanks, joined lines and a comment left out. -/
def skipBlanks : List Char → List Char
  | ' ' :: rest | '\t' :: rest => skipBlanks rest
  | '\\' :: '\n' :: rest => skipBlanks rest
  | '#' :: rest => rest.dropWhile (· ≠ '\n')
  | s => s

def skipLines (s : List Char) : List Char := go s.length s
where
  go : Nat → List Char → List Char
    | 0, s => s
    | steps + 1, s =>
      match skipBlanks s with
      | '\n' :: rest => go steps rest
      | s => s

/-- What follows a reserved word, if the script goes on with it. -/
def reserved? (word : String) (s : List Char) : Option (List Char) :=
  let s := skipBlanks s
  if s.takeWhile (!isMeta ·) = word.toList then some (s.dropWhile (!isMeta ·)) else none

/-- What follows a reserved word that may stand on a later line. -/
def reservedLater? (word : String) (s : List Char) : Option (List Char) :=
  reserved? word (skipLines s)

/-- The words that end a list of commands. -/
def closers : List String := ["then", "do", "done", "fi", "else", "elif", "esac", "\x7d"]

def isListEnd (s : List Char) : Bool :=
  match s with
  | [] | ')' :: _ | ';' :: ';' :: _ => true
  | _ => closers.any fun w => (reserved? w s).isSome

def words? : (steps : Nat) → List Char → Option (List Word × List Char)
  | 0, _ => none
  | steps + 1, s =>
    match skipBlanks s with
    | [] => some ([], [])
    | c :: rest =>
      if isMeta c then some ([], c :: rest)
      else do
        let (w, s) ← pieces? (4 * s.length + 4) false isMeta (c :: rest)
        let (ws, s) ← words? steps s
        return (w :: ws, s)

def redirection? (s : List Char) : Option (Option Redirection × List Char) :=
  let digits := s.takeWhile Char.isDigit
  let given (otherwise : Nat) : Nat :=
    if digits = [] then otherwise else digits.foldl (fun n c => n * 10 + (c.toNat - 48)) 0
  let target (descriptor : Nat) (kind : RedirectionKind) (rest : List Char) :
      Option (Option Redirection × List Char) := do
    let rest := skipBlanks rest
    let (w, rest) ← pieces? (4 * rest.length + 4) false isMeta rest
    if w.isEmpty then none else return (some ⟨descriptor, kind, w⟩, rest)
  match s.dropWhile Char.isDigit with
  | '>' :: '>' :: rest => target (given 1) .appending rest
  | '>' :: '&' :: rest => target (given 1) .duplicate rest
  | '>' :: '|' :: rest => target (given 1) .output rest
  | '>' :: rest => target (given 1) .output rest
  | '<' :: '&' :: rest => target (given 0) .duplicate rest
  | '<' :: '<' :: _ => none
  | '<' :: rest => target (given 0) .input rest
  | _ => some (none, s)

def assignment? (s : List Char) : Option (Option (String × Word) × List Char) :=
  let name := s.takeWhile isNameChar
  match s.dropWhile isNameChar with
  | '=' :: rest =>
    if isVariableName name then do
      let (w, rest) ← pieces? (4 * rest.length + 4) false isMeta rest
      return (some (String.ofList name, w), rest)
    else some (none, s)
  | _ => some (none, s)

def redirections? : (steps : Nat) → List Char → Option (List Redirection × List Char)
  | 0, _ => none
  | steps + 1, s => do
    match ← redirection? (skipBlanks s) with
    | (none, _) => return ([], s)
    | (some r, s) =>
      let (rs, s) ← redirections? steps s
      return (r :: rs, s)

/-- The assignments, words and redirections of a simple command, in any order as far as the first
word allows assignments. -/
def simpleParts? : (steps : Nat) → (started : Bool) → List Char →
    Option ((List (String × Word) × List Word × List Redirection) × List Char)
  | 0, _, _ => none
  | steps + 1, started, s => do
    let s := skipBlanks s
    match ← redirection? s with
    | (some r, s) =>
      let ((as, ws, rs), s) ← simpleParts? steps started s
      return ((as, ws, r :: rs), s)
    | (none, _) =>
      match ← (if started then some (none, s) else assignment? s) with
      | (some a, s) =>
        let ((as, ws, rs), s) ← simpleParts? steps started s
        return ((a :: as, ws, rs), s)
      | (none, _) =>
        match s with
        | [] => return (([], [], []), [])
        | c :: rest =>
          if isMeta c then return (([], [], []), c :: rest)
          else
            let (w, s) ← pieces? (4 * s.length + 4) false isMeta s
            let ((as, ws, rs), s) ← simpleParts? steps true s
            return ((as, w :: ws, rs), s)

/-- The patterns of a branch up to the closing parenthesis. -/
def patterns? : (steps : Nat) → List Char → Option (List Word × List Char)
  | 0, _ => none
  | steps + 1, s => do
    let s := skipBlanks s
    let (w, s) ← pieces? (4 * s.length + 4) false isMeta s
    match skipBlanks s with
    | '|' :: s =>
      let (ws, s) ← patterns? steps s
      return (w :: ws, s)
    | ')' :: s => return ([w], s)
    | _ => none

/-- The number of the line that the rest of a script of `lines` lines begins on. -/
def lineOf (lines : Nat) (s : List Char) : Nat := lines - s.count '\n'

mutual

def list? (lines : Nat) : (steps : Nat) → List Char → Option (Command × List Char)
  | 0, _ => none
  | steps + 1, s =>
    let s := skipLines s
    if isListEnd s then some (.nothing, s)
    else do
      let (c, s) ← chain? lines steps s
      match skipBlanks s with
      | ';' :: ';' :: rest => return (c, ';' :: ';' :: rest)
      | ';' :: rest | '\n' :: rest | '&' :: rest =>
        let (more, s) ← list? lines steps rest
        return (.sequence c more, s)
      | s => return (c, s)

def chain? (lines : Nat) : (steps : Nat) → List Char → Option (Command × List Char)
  | 0, _ => none
  | steps + 1, s => do
    let (c, s) ← pipeline? lines steps s
    links? lines steps c s

/-- What a conjunction adds to a command; they group from the left. -/
def links? (lines : Nat) : (steps : Nat) → Command → List Char → Option (Command × List Char)
  | 0, _, _ => none
  | steps + 1, c, s =>
    match skipBlanks s with
    | '&' :: '&' :: rest => do
      let (d, s) ← pipeline? lines steps (skipLines rest)
      links? lines steps (.both c d) s
    | '|' :: '|' :: rest => do
      let (d, s) ← pipeline? lines steps (skipLines rest)
      links? lines steps (.either c d) s
    | s => some (c, s)

def pipeline? (lines : Nat) : (steps : Nat) → List Char → Option (Command × List Char)
  | 0, _ => none
  | steps + 1, s =>
    match reserved? "!" s with
    | some s => do
      let (c, s) ← pipeline? lines steps s
      return (.not c, s)
    | none => do
      let (c, s) ← command? lines steps s
      match skipBlanks s with
      | '|' :: '|' :: rest => return (c, '|' :: '|' :: rest)
      | '|' :: rest =>
        let (d, s) ← pipeline? lines steps (skipLines rest)
        return (.pipeline c d, s)
      | s => return (c, s)

def command? (lines : Nat) : (steps : Nat) → List Char → Option (Command × List Char)
  | 0, _ => none
  | steps + 1, s => do
    let line := lineOf lines (skipBlanks s)
    match ← compound? lines steps s with
    | (some c, s) =>
      let (rs, s) ← redirections? s.length.succ s
      return (if rs.isEmpty then c else .redirected line c rs, s)
    | (none, _) =>
      let ((as, ws, rs), s') ← simpleParts? s.length.succ false s
      if as.isEmpty && ws.isEmpty && rs.isEmpty then none
      else return (.simple line as ws rs, s')

/-- A command that begins with a reserved word or a parenthesis; none if it does not. -/
def compound? (lines : Nat) : (steps : Nat) → List Char → Option (Option Command × List Char)
  | 0, _ => none
  | steps + 1, s =>
    match skipBlanks s with
    | '(' :: rest => do
      let (c, s) ← list? lines steps rest
      match skipLines s with
      | ')' :: s => return (some (.apart c), s)
      | _ => none
    | s =>
      match reserved? "\x7b" s with
      | some s => do
        let (c, s) ← list? lines steps s
        return (some c, ← reservedLater? "\x7d" s)
      | none =>
      match reserved? "if" s with
      | some s => do
        let (c, s) ← branches? lines steps s
        return (some c, s)
      | none =>
      match reserved? "while" s with
      | some s => do
        let (c, s) ← repetition? lines steps true s
        return (some c, s)
      | none =>
      match reserved? "until" s with
      | some s => do
        let (c, s) ← repetition? lines steps false s
        return (some c, s)
      | none =>
      match reserved? "for" s with
      | some s => do
        let s := skipBlanks s
        let name := s.takeWhile isNameChar
        if !isVariableName name then none
        let s := s.dropWhile isNameChar
        let (ws, s) ← match reservedLater? "in" s with
          | some s => (words? s.length.succ s).map fun (ws, s) => (some ws, s)
          | none => some (none, s)
        let s := match skipBlanks s with
          | ';' :: rest => rest
          | s => s
        let (body, s) ← list? lines steps (← reservedLater? "do" s)
        return (some (.each (String.ofList name) ws body), ← reservedLater? "done" s)
      | none =>
      match reserved? "case" s with
      | some s => do
        let s := skipBlanks s
        let (w, s) ← pieces? (4 * s.length + 4) false isMeta s
        let (bs, s) ← cases? lines steps (← reservedLater? "in" s)
        return (some (.select w bs), s)
      | none => some (none, s)

/-- What follows `if` or `elif`, up to `fi`. -/
def branches? (lines : Nat) : (steps : Nat) → List Char → Option (Command × List Char)
  | 0, _ => none
  | steps + 1, s => do
    let (condition, s) ← list? lines steps s
    let (yes, s) ← list? lines steps (← reservedLater? "then" s)
    match reservedLater? "elif" s with
    | some s =>
      let (no, s) ← branches? lines steps s
      return (.choose condition yes no, s)
    | none =>
      match reservedLater? "else" s with
      | some s =>
        let (no, s) ← list? lines steps s
        return (.choose condition yes no, ← reservedLater? "fi" s)
      | none => return (.choose condition yes .nothing, ← reservedLater? "fi" s)

def repetition? (lines : Nat) : (steps : Nat) → (expected : Bool) → List Char →
    Option (Command × List Char)
  | 0, _, _ => none
  | steps + 1, expected, s => do
    let (condition, s) ← list? lines steps s
    let (body, s) ← list? lines steps (← reservedLater? "do" s)
    return (.loop expected condition body, ← reservedLater? "done" s)

def cases? (lines : Nat) : (steps : Nat) → List Char →
    Option (List (List Word × Command) × List Char)
  | 0, _ => none
  | steps + 1, s =>
    match reservedLater? "esac" s with
    | some s => some ([], s)
    | none => do
      let s := match skipLines s with
        | '(' :: rest => rest
        | s => s
      let (ps, s) ← patterns? s.length.succ s
      let (c, s) ← list? lines steps s
      match skipLines s with
      | ';' :: ';' :: s =>
        let (bs, s) ← cases? lines steps s
        return ((ps, c) :: bs, s)
      | s => return ([(ps, c)], ← reservedLater? "esac" s)

end

def Command.read? (s : List Char) : Option Command :=
  match list? (s.count '\n' + 1) (8 * s.length + 16) s with
  | some (c, []) => some c
  | _ => none

end SmaliBuild.Shell
