import SmaliBuild.Shell.Expand
import SmaliBuild.Shell.Program
import SmaliBuild.Shell.Reader
/-!
# Running shell scripts

`execute` runs a command in a session.  Commands within commands, scripts within scripts and the
programs that they start go down by one in `depth`; a loop runs at most `patience` times.  A script
that would need more than that goes on as if it had come to an end there.
-/
namespace SmaliBuild.Shell

def patience : Nat := 1000000

def depthLimit : Nat := 2000

/-- The number of a signal by its name or number. -/
def signalOf? (s : String) : Option Nat :=
  let s := if s.startsWith "SIG" then (s.drop 3).toString else s
  match s.toNat? with
  | some n => some n
  | none =>
    [("HUP", 1), ("INT", 2), ("QUIT", 3), ("ABRT", 6), ("KILL", 9), ("USR1", 10), ("SEGV", 11),
      ("USR2", 12), ("PIPE", 13), ("ALRM", 14), ("TERM", 15)].lookup s

/-- The signal to send and the processes to send it to. -/
def killed? : List String → Option (Nat × List String)
  | "-s" :: s :: rest => (signalOf? s).map (·, rest)
  | a :: rest =>
    if a.startsWith "-" then (signalOf? (a.drop 1).toString).map (·, rest) else some (15, a :: rest)
  | [] => none

/-- Sends a signal; only the script itself can be reached. -/
def kill (arguments : List String) : Action Unit := modify fun s =>
  match killed? arguments with
  | some (signal, [process]) =>
    if process = toString processNumber then
      if signal = 0 then { s with status := 0 } else { s with control := .killed signal }
    else { s with status := 1 }
  | _ => { s with status := 2 }

/-- The first line of an input, and the rest. -/
def takeLine (bytes : Bytes) : Option Bytes × Bytes :=
  match bytes.dropWhile (· ≠ 10) with
  | [] => (none, [])
  | _ :: rest => (some (bytes.takeWhile (· ≠ 10)), rest)

/-- Reads a line into variables, one field each and the remainder into the last. -/
def readLine (names : List String) : Action Unit := modify fun s =>
  let (line?, input) := takeLine s.input
  let line := toChars (line?.getD s.input)
  let rec assignAll (s : Session) (text : List Char) : List String → Session
    | [] => s
    | [name] => s.assign name (String.ofList (text.reverse.dropWhile isDivider).reverse)
    | name :: rest =>
      assignAll (s.assign name (String.ofList (text.takeWhile (!isDivider ·))))
        ((text.dropWhile (!isDivider ·)).dropWhile isDivider) rest
  let s := assignAll s (line.dropWhile isDivider) (names.filter fun n => !n.startsWith "-")
  { s with input, status := if line?.isSome then 0 else 1 }

/-- Where a redirection to a path leads; the devices of the process are known by name. -/
def openFor (s : Session) (kind : RedirectionKind) (path : String) :
    Except IoError (FileSystem × Target) := do
  if path = "/dev/null" then return (s.files, .nowhere)
  if path = "/dev/stdout" then return (s.files, (s.targets.lookup 1).getD .nowhere)
  if path = "/dev/stderr" then return (s.files, (s.targets.lookup 2).getD .nowhere)
  let (files, l) ← s.files.destination linkLimit s.directory (toPath path)
  return (if kind = .output then files.setContent l [] else files, .file l)

/-- What the shell says when a file cannot be opened. -/
def openingReason (creating : Bool) (e : IoError) : String :=
  if e = .os .noEntry ∨ e = .os .notDirectory then
    if creating then "Directory nonexistent" else "No such file"
  else Utility.reason e

def retarget (targets : List (Nat × Target)) (descriptor : Nat) (target : Target) :
    List (Nat × Target) :=
  (descriptor, target) :: targets.filter (·.1 ≠ descriptor)

/-- Performs redirections up to the first that fails. -/
def redirect (run : List Char → Action (List Char)) (line : Nat) : List Redirection → Action Bool
  | [] => return true
  | r :: rest => do
    let path ← textOf run r.target
    let s ← get
    let failing (verb : String) (reason : String) : Action Bool := do
      set { s.complain line s!"cannot {verb} {path}: {reason}" with status := 2 }
      return false
    match r.kind with
    | .input =>
      if path = "/dev/null" then
        set { s with input := [] }
        redirect run line rest
      else match s.files.read s.directory (toPath path) with
        | .ok input =>
          set { s with input }
          redirect run line rest
        | .error e => failing "open" (openingReason false e)
    | .output | .appending =>
      match openFor s r.kind path with
      | .ok (files, target) =>
        set { s with files, targets := retarget s.targets r.descriptor target }
        redirect run line rest
      | .error e => failing "create" (openingReason true e)
    | .duplicate =>
      if path = "-" then
        set { s with targets := s.targets.filter (·.1 ≠ r.descriptor) }
        redirect run line rest
      else match path.toNat?.bind fun n => s.targets.lookup n with
        | some target =>
          set { s with targets := retarget s.targets r.descriptor target }
          redirect run line rest
        | none =>
          set { s.complain line s!"{path}: Bad file descriptor" with status := 2 }
          return false

/-- Runs `body` as long as `condition` comes out as `expected`. -/
def iterate (expected : Bool) (condition body : Session → Session) : (turns : Nat) →
    (last : Nat) → Session → Session
  | 0, _, s => s
  | turns + 1, last, s =>
    let s := condition s
    if s.control ≠ .running then s
    else if (s.status == 0) != expected then { s with status := last }
    else
      let s := body s
      match s.control with
      | .running => iterate expected condition body turns s.status s
      | .breaking n =>
        { s with control := if n ≤ 1 then .running else .breaking (n - 1) }
      | .continuing n =>
        if n ≤ 1 then iterate expected condition body turns s.status { s with control := .running }
        else { s with control := .continuing (n - 1) }
      | _ => s

/-- Runs `body` once for each value of a variable. -/
def forEach (name : String) (body : Session → Session) : List String → Session → Session
  | [], s => s
  | v :: rest, s =>
    let s := body (s.assign name v)
    match s.control with
    | .running => forEach name body rest s
    | .breaking n => { s with control := if n ≤ 1 then .running else .breaking (n - 1) }
    | .continuing n =>
      if n ≤ 1 then forEach name body rest { s with control := .running }
      else { s with control := .continuing (n - 1) }
    | _ => s

/-- What the shell says of a process that a signal ended. -/
def endingText : (signal : Nat) → String
  | 1 => "Hangup\n"
  | 2 => "\n"
  | 3 => "Quit\n"
  | 6 => "Aborted\n"
  | 9 => "Killed\n"
  | 11 => "Segmentation fault\n"
  | 14 => "Alarm clock\n"
  | 15 => "Terminated\n"
  | n => s!"Signal {n}\n"

/-- Does `act` in a session of its own: what it does to files and prints stays, its variables and
its end do not. -/
def apart (act : Action Unit) : Action Unit := do
  let before ← get
  act
  modify fun s =>
    let after := { before with files := s.files, printed := s.printed, piped := s.piped }
    match s.control with
    | .killed signal => { after.say 2 (endingText signal) with status := 128 + signal }
    | _ => { after with status := s.status }

def startVariables (bindings : List (String × String)) (directory : Location) :
    List (String × String) :=
  ("PWD", ofPath directory.path) :: bindings.filter (·.1 ≠ "PWD")

/-- Commands of the shell that concern the session itself; false if the name is none. -/
def ownCommand (name : String) (arguments : List String) : Action Bool := do
  let number (otherwise : Nat) : Nat := ((arguments.head?.bind (·.toNat?))).getD otherwise
  match name with
  | ":" => modify fun s => { s with status := 0 }
  | "exit" => modify fun s => { s with status := number s.status % 256, control := .leaving }
  | "return" => modify fun s => { s with status := number s.status % 256, control := .leaving }
  | "break" => modify fun s => { s with status := 0, control := .breaking (number 1) }
  | "continue" => modify fun s => { s with status := 0, control := .continuing (number 1) }
  | "shift" =>
    modify fun s =>
      if s.arguments.length < number 1 then { s with status := 2, control := .leaving }
      else { s with status := 0, arguments := s.arguments.drop (number 1) }
  | "export" | "readonly" =>
    modify fun s => arguments.foldl (fun s a =>
      match a.splitOn "=" with
      | n :: v :: more => s.assign n ("=".intercalate (v :: more))
      | _ => s) { s with status := 0 }
  | "unset" =>
    modify fun s =>
      { s with status := 0, bindings := s.bindings.filter fun v => !arguments.contains v.1 }
  | "set" =>
    modify fun s => match arguments with
      | "--" :: rest => { s with status := 0, arguments := rest }
      | _ => { s with status := 0 }
  | "cd" =>
    let s ← get
    let target := arguments.headD ((s.value? "HOME").getD "/")
    match s.files.locate s.directory true (toPath target) with
    | .ok l =>
      if s.files.get? l = some .directory then
        set ({ s with directory := l, status := 0 }.assign "PWD" (ofPath l.path))
      else set { s.complain 1 s!"cd: can't cd to {target}" with status := 2 }
    | .error _ => set { s.complain 1 s!"cd: can't cd to {target}" with status := 2 }
  | "kill" => kill arguments
  | "read" => readLine arguments
  | "umask" | "trap" | "wait" => modify fun s => { s with status := 0 }
  | _ => return false
  return true

def isLasting (name : String) : Bool :=
  [":", "exit", "return", "break", "continue", "shift", "export", "readonly", "unset", "set",
    "eval", "exec"].contains name

mutual

def execute : (depth : Nat) → Command → Action Unit
  | 0, _ => return
  | _ + 1, .nothing => return
  | depth + 1, .sequence a b => do
    execute depth a
    if (← get).control = .running then execute depth b
  | depth + 1, .both a b => do
    execute depth a
    let s ← get
    if s.control = .running ∧ s.status = 0 then execute depth b
  | depth + 1, .either a b => do
    execute depth a
    let s ← get
    if s.control = .running ∧ s.status ≠ 0 then execute depth b
  | depth + 1, .not c => do
    execute depth c
    modify fun s =>
      if s.control = .running then { s with status := if s.status = 0 then 1 else 0 } else s
  | depth + 1, .pipeline a b => do
    let before ← get
    apart do
      modify fun s => { s with targets := retarget s.targets 1 .pipe, piped := [] }
      execute depth a
    let input := (← get).piped.reverse.flatten
    modify fun s => { s with piped := before.piped }
    apart do
      modify fun s => { s with input }
      execute depth b
  | depth + 1, .choose condition yes no => do
    execute depth condition
    let s ← get
    if s.control = .running then
      set { s with status := 0 }
      execute depth (if s.status = 0 then yes else no)
  | depth + 1, .loop expected condition body =>
    modify (iterate expected (fun s => (execute depth condition s).2)
      (fun s => (execute depth body s).2) patience 0)
  | depth + 1, .each name words body => do
    let values ← match words with
      | none => pure (← get).arguments
      | some ws => fieldsOf (printedBy depth) ws
    modify fun s =>
      forEach name (fun s => (execute depth body s).2) values { s with status := 0 }
  | depth + 1, .select subject branches => do
    let text := (← textOf (printedBy depth) subject).toList
    modify fun s => { s with status := 0 }
    selectBranch depth text branches
  | depth + 1, .apart c => apart (execute depth c)
  | depth + 1, .redirected line c redirections => do
    let before ← get
    if ← redirect (printedBy depth) line redirections then execute depth c
    modify fun s => { s with targets := before.targets, input := before.input }
  | depth + 1, .simple line assignments words redirections => do
    let before ← get
    let fields ← fieldsOf (printedBy depth) words
    assignAll depth assignments
    if (← get).control ≠ .running then return
    let given := (← get).input
    if ← redirect (printedBy depth) line redirections then
      match fields with
      | [] => if words.isEmpty ∧ assignments.isEmpty then modify fun s => { s with status := 0 }
      | name :: arguments => call depth line name arguments
    let readsOn := !redirections.any (·.kind = .input)
    let lasting := fields.isEmpty || isLasting (fields.headD "")
    modify fun s => { s with
      targets := before.targets
      input := if readsOn then s.input else given
      bindings := if lasting || assignments.isEmpty then s.bindings else before.bindings }

def assignAll : (depth : Nat) → List (String × Word) → Action Unit
  | 0, _ | _, [] => return
  | depth + 1, (name, w) :: rest => do
    modify fun s => { s with status := 0 }
    let v ← textOf (printedBy depth) w
    modify fun s => s.assign name v
    assignAll depth rest

/-- Runs the first branch with a pattern that the text fits. -/
def selectBranch : (depth : Nat) → (text : List Char) → List (List Word × Command) → Action Unit
  | 0, _, _ | _, _, [] => return
  | depth + 1, text, (patterns, c) :: rest => do
    if ← anyFits depth text patterns then execute depth c else selectBranch depth text rest

def anyFits : (depth : Nat) → (text : List Char) → List Word → Action Bool
  | 0, _, _ | _, _, [] => return false
  | depth + 1, text, w :: ws => do
    let p ← markedWord (printedBy depth) w
    if matchesPattern p text then return true else anyFits depth text ws

/-- Has the shell read the words it was started with, and run what they ask for. -/
def startShell : (depth : Nat) → (words : List String) → Action Unit
  | 0, _ => return
  | depth + 1, words => do
    modify fun s => { s with
      bindings := startVariables s.bindings s.directory, control := .running }
    match words.tail with
    | "-c" :: script :: rest =>
      let name := words.headD Native.shellName
      modify fun s => { s with name := rest.headD name, arguments := rest.tail }
      runScript depth script.toList
    | file :: rest =>
      let s ← get
      match s.files.read s.directory (toPath file) with
      | .ok bytes =>
        set { s with name := file, arguments := rest }
        runScript depth (toChars bytes)
      | .error e =>
        let s := { s with name := words.headD Native.shellName }
        let s := s.complain 0 s!"cannot open {file}: {openingReason false e}"
        set { s with status := 2 }
    | [] =>
      let bytes ← Utility.takeInput
      modify fun s => { s with name := words.headD Native.shellName, arguments := [] }
      runScript depth (toChars bytes)

/-- Calls what a name stands for: the shell's own command, a utility or a program. -/
def call : (depth : Nat) → (line : Nat) → (name : String) → (arguments : List String) → Action Unit
  | 0, _, _, _ => return
  | depth + 1, line, name, arguments => do
    if name = "eval" then runScript depth (" ".intercalate arguments).toList
    else if name = "exec" ∧ arguments ≠ [] then
      call depth line (arguments.headD "") arguments.tail
      modify fun s => if s.control = .running then { s with control := .leaving } else s
    else if ← ownCommand name arguments then return
    else match (Utility.named.lookup name).filter Utility.withinShell.contains with
      | some u =>
        let status ← u.run s!"{(← get).name}: {line}: {name}" name arguments
        modify fun s => { s with status }
      | none =>
        let s ← get
        match find s.files s.directory ((s.value? "PATH").getD "") (name :: arguments) with
        | .ok (program, words) => start depth program words
        | .error e =>
          if e = .os .notExecutable then
            start depth .shell (Native.shellName :: name :: arguments)
          else
            let missing := e = .os .noEntry ∨ e = .os .notDirectory
            let reason := if missing then "not found" else Utility.reason e
            let s := s.complain line s!"{name}: {reason}"
            set { s with status := if missing then 127 else 126 }

/-- Runs a program in a process of its own. -/
def start : (depth : Nat) → Native → (words : List String) → Action Unit
  | 0, _, _ => return
  | _ + 1, .utility name u, words => do
    let status ← u.run name name words.tail
    modify fun s => { s with status }
  | _ + 1, .starter, words =>
    modify fun s => s.after (s.starter s.directory (words.map toWord) s.files)
  | depth + 1, .shell, words => apart do
    modify fun s => s.assign "PPID" (toString processNumber)
    startShell depth words

def runScript : (depth : Nat) → List Char → Action Unit
  | 0, _ => return
  | depth + 1, script => do
    match Command.read? script with
    | some c =>
      modify fun s => { s with status := 0 }
      execute depth c
    | none =>
      modify fun s => { s.complain 1 "Syntax error" with status := 2, control := .leaving }

/-- What a script prints when it runs in a session of its own. -/
def printedBy : (depth : Nat) → List Char → Action (List Char)
  | 0, _ => return []
  | depth + 1, script => do
    let before ← get
    apart do
      modify fun s => { s with targets := retarget s.targets 1 .pipe, piped := [] }
      runScript depth script
    let s ← get
    set { s with piped := before.piped }
    return toChars s.piped.reverse.flatten

end

end SmaliBuild.Shell
