import SmaliBuild.Shell.Format
import SmaliBuild.Shell.Session
/-!
# Utilities

The small programs that scripts call.  Each takes its arguments and answers its exit status.
-/
namespace SmaliBuild.Shell

/-- The programs that a machine comes with, the shell apart. -/
inductive Utility where
  | yes
  | no
  | echo
  | printf
  | cat
  | list
  | makeDirectory
  | touch
  | remove
  | test
  | baseName
  | directoryName
  | workingDirectory
  | sleep
deriving DecidableEq, Repr

namespace Utility

def named : List (String × Utility) := [
  ("true", .yes), ("false", .no), ("echo", .echo), ("printf", .printf), ("cat", .cat),
  ("ls", .list), ("mkdir", .makeDirectory), ("touch", .touch), ("rm", .remove), ("test", .test),
  ("[", .test), ("basename", .baseName), ("dirname", .directoryName), ("pwd", .workingDirectory),
  ("sleep", .sleep)]

/-- The utilities that the shell has within itself. -/
def withinShell : List Utility := [.yes, .no, .echo, .printf, .test, .workingDirectory]

/-- What an error of a file call is called, without its number. -/
def reason : IoError → String
  | .os n => n.text
  | e => e.message

/-- A message of a utility about an error; `label` is what it calls itself. -/
def complain (label message : String) : Action Unit :=
  modify fun s => s.say 2 s!"{label}: {message}\n"

/-- The arguments that are options, and the others. -/
def options (arguments : List String) : List String × List String :=
  let isOption (a : String) : Bool := a.startsWith "-" && a != "-" && a != "--"
  let rest := arguments.dropWhile isOption
  (arguments.takeWhile isOption, if rest.head? = some "--" then rest.tail else rest)

def hasOption (letter : Char) (given : List String) : Bool := given.any fun o => o.contains letter

/-- What the session's input holds, which is then used up. -/
def takeInput : Action Bytes := modifyGet fun s => (s.input, { s with input := [] })

def concatenate : List String → Action Nat
  | [] => return 0
  | a :: rest => do
    let failed ← do
      if a = "-" then
        let bytes ← takeInput
        modify fun s => s.write 1 bytes
        pure 0
      else
        let s ← get
        match s.files.read s.directory (toPath a) with
        | .ok bytes =>
          modify fun s => s.write 1 bytes
          pure 0
        | .error e =>
          complain "cat" s!"{a}: {reason e}"
          pure 1
    let status ← concatenate rest
    return max failed status

def listing (all : Bool) (names : List Name) : String :=
  let texts := (names.map fun n => ofWord n.bytes).filter fun n => all || !n.startsWith "."
  String.join ((texts.mergeSort fun a b => a ≤ b).map (· ++ "\n"))

/-- Lists files, and then the content of directories. -/
def listAll (given operands : List String) : Action Nat := do
  let operands := if operands.isEmpty then ["."] else operands
  let s ← get
  let states := operands.map fun a => (a, s.files.lstat s.directory (toPath a),
    s.files.list s.directory (toPath a))
  for (a, found, _) in states do
    if let .error e := found then complain "ls" s!"cannot access '{a}': {reason e}"
  let files := states.filterMap fun (a, found, names) =>
    match found, names with
    | .ok _, .error _ => some (a ++ "\n")
    | _, _ => none
  let shown := states.filterMap fun (a, found, names) =>
    match found, names with
    | .ok _, .ok names =>
      let text := (if hasOption 'a' given then ".\n..\n" else "") ++
        listing (hasOption 'a' given || hasOption 'A' given) names
      some (if operands.length = 1 then text else s!"{a}:\n{text}")
    | _, _ => none
  let text := String.join files ++ (if files.isEmpty || shown.isEmpty then "" else "\n")
    ++ "\n".intercalate shown
  modify fun s => s.say 1 text
  return if states.any fun (_, found, _) => found matches .error _ then 2 else 0

/-- Makes directories; with `parents` also those around them, and none that is there is an
error. -/
def makeDirectories (parents : Bool) : List String → Action Nat
  | [] => return 0
  | a :: rest => do
    let s ← get
    let (files, result) :=
      if parents then s.files.mkdirAll s.directory (toPath a)
      else match s.files.mkdir s.directory (toPath a) with
        | .ok files => (files, .ok ())
        | .error e => (s.files, .error e)
    set { s with files }
    let failed ← match result with
      | .ok () => pure 0
      | .error e => do
        complain "mkdir" s!"cannot create directory '{a}': {reason e}"
        pure 1
    return max failed (← makeDirectories parents rest)

def touchAll : List String → Action Nat
  | [] => return 0
  | a :: rest => do
    let s ← get
    let failed ← match s.files.stat s.directory (toPath a) with
      | .ok _ => pure 0
      | .error _ =>
        match s.files.writeAfter s.directory (toPath a) [] with
        | .ok files => do
          set { s with files }
          pure 0
        | .error e => do
          complain "touch" s!"cannot touch '{a}': {reason e}"
          pure 1
    return max failed (← touchAll rest)

def removeAll (whole force : Bool) : List String → Action Nat
  | [] => return 0
  | a :: rest => do
    let s ← get
    let p := toPath a
    let failed ← match s.files.lstat s.directory p with
      | .error e =>
        if force && e.isAbsence then pure 0
        else do
          complain "rm" s!"cannot remove '{a}': {reason e}"
          pure 1
      | .ok _ =>
        match (if whole then s.files.removeAll s.directory p else s.files.unlink s.directory p) with
        | .ok files => do
          set { s with files }
          pure 0
        | .error e => do
          complain "rm" s!"cannot remove '{a}': {reason e}"
          pure 1
    return max failed (← removeAll whole force rest)

def testOne (s : Session) (operator a : String) : Option Bool :=
  let found := s.files.stat s.directory (toPath a)
  match operator with
  | "-n" => some (a ≠ "")
  | "-z" => some (a = "")
  | "-e" | "-r" | "-w" => some (found matches .ok _)
  | "-f" => some (found matches .ok (.file ..))
  | "-d" => some (found matches .ok .directory)
  | "-x" => some (match found with
    | .ok (.file _ x) => x
    | .ok _ => true
    | .error _ => false)
  | "-s" => some (match found with
    | .ok (.file content _) => content ≠ []
    | .ok _ => true
    | .error _ => false)
  | "-L" | "-h" => some (s.files.lstat s.directory (toPath a) matches .ok (.link _))
  | _ => none

def testTwo (operator a b : String) : Option Bool :=
  let numbers (relation : Int → Int → Bool) : Option Bool := do
    return relation (← a.toInt?) (← b.toInt?)
  match operator with
  | "=" | "==" => some (a = b)
  | "!=" => some (a ≠ b)
  | "-eq" => numbers (· == ·)
  | "-ne" => numbers (· != ·)
  | "-lt" => numbers (· < ·)
  | "-le" => numbers (· ≤ ·)
  | "-gt" => numbers (· > ·)
  | "-ge" => numbers (· ≥ ·)
  | _ => none

/-- The outcome of a test; none if it makes no sense. -/
def tested (s : Session) : List String → Option Bool
  | [] => some false
  | [a] => some (a ≠ "")
  | [a, b] => if a = "!" then some (b = "") else testOne s a b
  | [a, b, c] =>
    match testTwo b a c with
    | some r => some r
    | none => if a = "!" then (tested s [b, c]).map (!·) else none
  | a :: rest => if a = "!" then (tested s rest).map (!·) else none

/-- The conditions of a test between the words that join them. -/
def testedAll (s : Session) (arguments : List String) : Option Bool :=
  let parts (word : String) (as : List String) : List (List String) :=
    as.foldr (fun a acc => match acc with
      | first :: rest => if a = word then [] :: first :: rest else (a :: first) :: rest
      | [] => [[a]]) [[]]
  if arguments.length ≤ 3 then tested s arguments
  else do
    let ors ← (parts "-o" arguments).mapM fun or => do
      let ands ← (parts "-a" or).mapM (tested s)
      return ands.all id
    return ors.any id

/-- What is wrong with a test that makes no sense. -/
def testFault (arguments : List String) : String :=
  match arguments with
  | [a, b, c] =>
    if ["-eq", "-ne", "-lt", "-le", "-gt", "-ge"].contains b then
      s!"Illegal number: {if a.toInt?.isNone then a else c}"
    else s!"{a}: unexpected operator"
  | a :: _ => s!"{a}: unexpected operator"
  | [] => "unexpected operator"

def statusOf (b : Bool) : Nat := if b then 0 else 1

/-- The last part of a path, without an ending. -/
def lastPart (a ending : String) : String :=
  match (toPath a).fileName with
  | none => if a.startsWith "/" then "/" else a
  | some n =>
    let n := ofWord n
    if n.endsWith ending ∧ n ≠ ending then (n.dropEnd ending.length).toString else n

def aroundLast (a : String) : String :=
  let t := (a.toList.reverse.dropWhile (· == '/')).dropWhile (· != '/')
  match t.dropWhile (· == '/') with
  | [] => if a.startsWith "/" then "/" else "."
  | t => String.ofList t.reverse

/-- Runs a utility under one of its names; `label` is what it calls itself in messages. -/
def run (u : Utility) (label name : String) (arguments : List String) : Action Nat := do
  match u with
  | .yes | .sleep => return 0
  | .no => return 1
  | .echo =>
    modify fun s => s.write 1 (echoed arguments)
    return 0
  | .printf =>
    match (if arguments.head? = some "--" then arguments.tail else arguments) with
    | [] =>
      complain label "usage: printf format [arg ...]"
      return 2
    | format :: rest =>
      modify fun s => s.write 1 (formatted format.toList rest)
      return 0
  | .cat =>
    let (_, files) := options arguments
    concatenate (if files.isEmpty then ["-"] else files)
  | .list =>
    let (given, operands) := options arguments
    listAll given operands
  | .makeDirectory =>
    let (given, operands) := options arguments
    makeDirectories (hasOption 'p' given) operands
  | .touch => touchAll (options arguments).2
  | .remove =>
    let (given, operands) := options arguments
    removeAll (hasOption 'r' given || hasOption 'R' given) (hasOption 'f' given) operands
  | .test =>
    let bracketed := name == "["
    if bracketed && arguments.getLast? != some "]" then
      complain label "missing ]"
      return 2
    let conditions := if bracketed then arguments.dropLast else arguments
    match testedAll (← get) conditions with
    | some outcome => return statusOf outcome
    | none =>
      complain label (testFault conditions)
      return 2
  | .baseName =>
    match arguments with
    | a :: rest =>
      modify fun s => s.say 1 (lastPart a (rest.headD "") ++ "\n")
      return 0
    | [] => return 1
  | .directoryName =>
    match arguments with
    | a :: _ =>
      modify fun s => s.say 1 (aroundLast a ++ "\n")
      return 0
    | [] => return 1
  | .workingDirectory =>
    modify fun s => s.say 1 s!"{ofPath s.directory.path}\n"
    return 0

end Utility
end SmaliBuild.Shell
