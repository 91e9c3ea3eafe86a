import SmaliBuild.Proofs.Host.Steps
import SmaliBuild.Config.File
import SmaliBuild.Input
import SmaliBuild.Manifest
import SmaliBuild.Sweep
/-!
# Actions that only write to the log

Between the tools nothing but log lines goes into the journal (`Host.Logging`).  The calls of the
machine put nothing there, so the walks of a manifest and of a sweep, the search for a configuration
and the resolution of an input let out only the lines that they log.
-/
namespace SmaliBuild

namespace Host
variable {α β : Type} {h h' h'' : Host} {p : Path}

/-- The log has grown, and nothing else was let out. -/
def Logs (h h' : Host) : Prop := ∃ lines : List LogLine, h'.journal = h.journal ++ lines.map .log

theorem logs_of_journal (hj : h'.journal = h.journal) : h.Logs h' := ⟨[], by simp [hj]⟩

theorem logs_noting (h : Host) (line : LogLine) : h.Logs (h.noting [.log line]) := ⟨[line], rfl⟩

instance : Std.Refl Logs := ⟨fun _ => logs_of_journal rfl⟩

instance : IsTrans Host Logs := ⟨fun _ _ _ ⟨lines, hx⟩ ⟨lines', hy⟩ =>
  ⟨lines ++ lines', by rw [hy, hx, List.map_append, List.append_assoc]⟩⟩

theorem Logs.calls (hl : h.Logs h') : h'.journal.calls = h.journal.calls := by
  obtain ⟨lines, hj⟩ := hl
  simp [hj, Journal.calls, List.filterMap_append, List.filterMap_map]

/-- The files are the same, and of what is let out only the log has grown. -/
structure Looks (h h' : Host) : Prop where
  files : h'.files = h.files
  logs : h.Logs h'

instance : Std.Refl Looks := ⟨fun _ => ⟨rfl, Std.Refl.refl _⟩⟩

instance : IsTrans Host Looks := ⟨fun _ _ _ hx hy =>
  ⟨hy.files.trans hx.files, IsTrans.trans _ _ _ hx.logs hy.logs⟩⟩

/-- The action lets out nothing but log lines. -/
abbrev Logging (a : Action α) : Prop := Ensures Logs (fun _ => True) a

/-- The action changes no file, and lets out nothing but log lines. -/
abbrev Looking (a : Action α) : Prop := Ensures Looks (fun _ => True) a

theorem Ensures.mono {R S : Host → Host → Prop} {P Q : α → Prop} {a : Action α}
    (ha : Ensures R P a) (hRS : ∀ h h', R h h' → S h h') (hPQ : ∀ a, P a → Q a) : Ensures S Q a :=
  fun h => ⟨hRS _ _ (ha h).1, hPQ _ (ha h).2⟩

theorem Ensures.logging {a : Action α} (ha : Looking a) : Logging a :=
  ha.mono (fun _ _ => Looks.logs) fun _ _ => trivial

theorem looking_log (level : Level) (message : String) (fields : List (String × String)) :
    Looking (log level message fields) := fun h => ⟨⟨rfl, logs_noting h _⟩, trivial⟩

theorem logging_log (level : Level) (message : String) (fields : List (String × String)) :
    Logging (log level message fields) := (looking_log level message fields).logging

theorem logging_setInput (input : Option Path) :
    Logging (modify fun h : Host => { h with input }) := fun _ => ⟨logs_of_journal rfl, trivial⟩

theorem looking_look (ask : FileSystem → Location → Except IoError α) : Looking (look ask) := by
  intro h
  rw [run_look]
  exact ⟨⟨rfl, logs_of_journal rfl⟩, trivial⟩

theorem logging_look (ask : FileSystem → Location → Except IoError α) : Logging (look ask) :=
  (looking_look ask).logging

theorem logging_change (act : FileSystem → Location → Except IoError FileSystem) :
    Logging (change act) := by
  intro h
  rcases run_change_cases (h := h) act with ⟨e, hrun⟩ | ⟨files, -, hrun⟩
  · rw [hrun]
    exact ⟨logs_of_journal rfl, trivial⟩
  · rw [hrun]
    exact ⟨logs_of_journal rfl, trivial⟩

theorem logging_isDirectory (p : Path) : Logging (isDirectory p) := by
  intro h
  rw [run_isDirectory_snd]
  exact ⟨logs_of_journal rfl, trivial⟩

theorem logging_list (p : Path) : Logging (list p) := by
  intro h
  rw [run_list_snd]
  exact ⟨logs_of_journal rfl, trivial⟩

theorem logging_createFile (p : Path) : Logging (createFile p) := by
  intro h
  rcases run_createFile_cases (h := h) (p := p) with ⟨e, hrun, -⟩ | ⟨files, l, -, hrun⟩
  · rw [hrun]
    exact ⟨logs_of_journal rfl, trivial⟩
  · rw [hrun]
    exact ⟨logs_of_journal rfl, trivial⟩

theorem logging_append (l : Location) (bytes : Bytes) : Logging (append l bytes) := by
  intro h
  obtain ⟨written, hrun⟩ := run_append_snd (h := h) l bytes
  rw [hrun]
  exact ⟨logs_of_journal rfl, trivial⟩

theorem looking_currentDirectory : Looking currentDirectory := by
  intro h
  rw [run_currentDirectory_snd]
  exact ⟨Std.Refl.refl h, trivial⟩

theorem looking_absolute (p : Path) : Looking (absolute p) := by
  intro h
  rw [run_absolute_snd]
  exact ⟨Std.Refl.refl h, trivial⟩

end Host

open Host

/-! ## Manifests -/

namespace Manifest

theorem logging_skip (m : Manifest) (p : Path) (e : IoError) : Logging (m.skip p e) :=
  (logging_log _ _ _).bind fun _ _ => .pure trivial

theorem logging_write (file : Location) (p : Path) (m : Manifest) : Logging (write file p m) := by
  refine (logging_append file (line p)).bind fun answer _ => ?_
  cases answer with
  | ok => exact .pure trivial
  | error e => exact logging_skip m p e

mutual

theorem logging_addDirectory (file : Location) (d : Path) (m : Manifest) :
    Logging (addDirectory file d m) := by
  rw [addDirectory]
  refine (logging_list d).bind fun answer _ => ?_
  cases answer with
  | error e => exact logging_skip m d e
  | ok listing =>
    refine (logging_addEntries file d listing.short listing.names m).bind fun m' _ => ?_
    cases listing.broken with
    | none => exact .pure trivial
    | some e => exact logging_skip m' d e
termination_by (pathLimit - d.byteLength, 1, 0)

theorem logging_addEntries (file : Location) (d : Path) (short : d.byteLength < pathLimit)
    (names : List Name) (m : Manifest) : Logging (addEntries file d short names m) := by
  match names with
  | [] =>
    rw [addEntries]
    exact .pure trivial
  | n :: names =>
    rw [addEntries]
    have hbelow := logging_addDirectory file (d.entry n.bytes) m
    have hrest (m' : Manifest) := logging_addEntries file d short names m'
    refine (logging_isDirectory (d.entry n.bytes)).bind fun enter _ => ?_
    split
    · exact hbelow.bind fun m' _ => hrest m'
    · exact (logging_write file (d.entry n.bytes) m).bind fun m' _ => hrest m'
termination_by (pathLimit - d.byteLength, 0, names.length)
decreasing_by
  · have := Path.byteLength_lt_entry d n.bytes_ne_nil
    exact Prod.Lex.left _ _ (by omega)
  · exact Prod.Lex.right _ (Prod.Lex.right _ (by simp))

end

theorem logging_clear (path : Path) : Logging (clear path) := by
  refine (logging_change fun fs d => fs.unlink d path).bind fun answer _ => ?_
  cases answer with
  | ok => exact logging_log _ _ _
  | error e =>
    dsimp only
    split
    · exact .pure trivial
    · exact logging_log _ _ _

theorem logging_create (root path : Path) : Logging (create root path) := by
  refine (logging_createFile path).bind fun answer _ => ?_
  cases answer with
  | error e => exact .pure trivial
  | ok file =>
    refine (logging_addDirectory file root ⟨path, [], []⟩).bind fun m _ => ?_
    exact (logging_log _ _ _).bind fun _ _ => .pure trivial

theorem logging_build (root path : Path) : Logging (build root path) := by
  refine (looking_absolute root).logging.bind fun answer _ => ?_
  cases answer with
  | error e => exact .pure trivial
  | ok root => exact (logging_clear path).bind fun _ _ => logging_create root path

end Manifest

/-! ## Sweeps -/

namespace Sweep

theorem logging_fail (s : Sweep) (p : Path) (e : IoError) : Logging (s.fail p e) :=
  (logging_log _ _ _).bind fun _ _ => .pure trivial

theorem logging_settle (s : Sweep) (p : Path) (answer : Except IoError Unit) :
    Logging (s.settle p answer) := by
  cases answer with
  | ok => exact .pure trivial
  | error e => exact (logging_fail s p e).bind fun _ _ => .pure trivial

mutual

theorem logging_removeEntry (p : Path) (s : Sweep) : Logging (removeEntry p s) := by
  rw [removeEntry]
  have htree := logging_removeTree p s
  refine (logging_look fun fs d => fs.lstat d p).bind fun answer _ => ?_
  cases answer with
  | error e => exact (logging_fail s p e).bind fun _ _ => .pure trivial
  | ok e =>
    dsimp only
    split
    · exact htree
    · exact (logging_change fun fs d => fs.unlink d p).bind fun answer _ => logging_settle s p answer
termination_by (pathLimit - p.byteLength, 2, 0)

theorem logging_removeTree (d : Path) (s : Sweep) : Logging (removeTree d s) := by
  rw [removeTree]
  refine (logging_list d).bind fun answer _ => ?_
  cases answer with
  | error e => exact (logging_fail s d e).bind fun _ _ => .pure trivial
  | ok listing =>
    have hend (s : Sweep) : Logging (do s.settle d (← Host.rmdir d)) :=
      (logging_change fun fs k => fs.rmdir k d).bind fun answer _ => logging_settle s d answer
    refine (logging_removeEntries d listing.short listing.names s).bind fun s' _ => ?_
    cases listing.broken with
    | none => exact hend s'
    | some e => exact (logging_fail s' d e).bind fun s'' _ => hend s''
termination_by (pathLimit - d.byteLength, 1, 0)

theorem logging_removeEntries (d : Path) (short : d.byteLength < pathLimit) (names : List Name)
    (s : Sweep) : Logging (removeEntries d short names s) := by
  match names with
  | [] =>
    rw [removeEntries]
    exact .pure trivial
  | n :: names =>
    rw [removeEntries]
    have hrest (s' : Sweep) := logging_removeEntries d short names s'
    exact (logging_removeEntry (d.entry n.bytes) s).bind fun out _ => hrest out.2
termination_by (pathLimit - d.byteLength, 0, names.length)
decreasing_by
  · exact Prod.Lex.right _ (Prod.Lex.right _ (by simp))
  · have := Path.byteLength_lt_entry d n.bytes_ne_nil
    exact Prod.Lex.left _ _ (by omega)

end

theorem logging_removeTarget (p : Path) (s : Sweep) : Logging (removeTarget p s) := by
  refine (logging_look fun fs d => fs.lstat d p).bind fun answer _ => ?_
  cases answer with
  | error e =>
    dsimp only
    split
    · exact (logging_log _ _ _).bind fun _ _ => .pure trivial
    · exact logging_fail s p e
  | ok e =>
    refine (logging_removeEntry p s).bind fun out _ => ?_
    dsimp only
    split
    · exact (logging_log _ _ _).bind fun _ _ => .pure trivial
    · exact .pure trivial

theorem logging_removeTargets (ps : List Path) (s : Sweep) : Logging (removeTargets ps s) := by
  induction ps generalizing s with
  | nil => exact .pure trivial
  | cons p ps ih => exact (logging_removeTarget p s).bind fun s' _ => ih s'

theorem logging_run (w : Workspace) (compiled : Path) : Logging (run w compiled) :=
  logging_removeTargets _ _

theorem logging_existing (ps : List Path) : Logging (existing ps) := by
  induction ps with
  | nil => exact .pure trivial
  | cons p ps ih =>
    refine (logging_look fun fs d => fs.lstat d p).bind fun answer _ => ?_
    cases answer with
    | ok e => exact ih.bind fun _ _ => .pure trivial
    | error e => exact ih

end Sweep

/-! ## Inputs and configurations -/

theorem Input.looking_resolve (typed : Path) : Looking (Input.resolve typed) := by
  refine (looking_absolute typed.withoutTrailingQuote).bind fun answer _ => ?_
  cases answer with
  | error e => exact .pure trivial
  | ok p =>
    refine (looking_look fun fs d => fs.stat d p).bind fun answer _ => ?_
    cases answer with
    | error e => exact .pure trivial
    | ok e => exact .pure trivial

namespace ConfigFile

theorem looking_load (p : Path) : Looking (load p) := by
  refine (looking_look fun fs d => fs.read d p).bind fun answer _ => ?_
  cases answer with
  | error e => exact .pure trivial
  | ok bytes =>
    dsimp only
    split <;> exact .pure trivial

theorem looking_find (named : Option Path) (directory : Path) : Looking (find named directory) := by
  cases named with
  | some p => exact (looking_load p).bind fun _ _ => .pure trivial
  | none =>
    refine (looking_look fun fs d => fs.stat d _).bind fun answer _ => ?_
    split
    · exact (looking_load _).bind fun _ _ => .pure trivial
    · exact .pure trivial

end ConfigFile

end SmaliBuild
