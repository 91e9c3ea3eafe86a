import SmaliBuild.Proofs.Host.Steps
import SmaliBuild.Conversion
/-!
# Courses of requests

A conversion makes up to three requests of its tools, one after the other, and stops at the first that
is refused.  `Toolchain.course` is what comes of a list of requests, from the files that the first tool
finds.  On a host the visits to the tools are on record, and beyond that only the log grows
(`Host.Visited`).
-/
namespace SmaliBuild

inductive ToolRequest where
  | compile (r : CompileRequest)
  | package (r : PackageRequest)
  | disassemble (r : DisassembleRequest)
deriving DecidableEq, Repr

/-- The call of a tool that a request amounts to. -/
def ToolRequest.call : ToolRequest → ToolCall
  | .compile r => ⟨Tool.compiler.name, r.arguments⟩
  | .package r => ⟨Tool.packager.name, r.arguments⟩
  | .disassemble r => ⟨Tool.disassembler.name, r.arguments⟩

/-- A request that was made, with the files that the tool found. -/
structure Visit where
  request : ToolRequest
  found : FileSystem

def Visit.record (v : Visit) : ToolCall × FileSystem := (v.request.call, v.found)

namespace Input

/-- The compile of an input: of the file itself, or of the manifest, with the classes put into the
class directory. -/
def compileRequest : Input → CompileRequest
  | .sourceFile p => ⟨.file p, none⟩
  | .sourceDirectory p =>
    ⟨.manifest (Input.sourceDirectory p).workspace.manifest, some (Input.sourceDirectory p).compiled⟩

def packageRequest (t : Input) (optimize : Bool) : PackageRequest :=
  ⟨t.compiled, t.workspace.bundle, optimize⟩

def disassembleRequest (t : Input) : DisassembleRequest := ⟨t.workspace.bundle, t.workspace.output⟩

def requests (t : Input) (optimize : Bool) : List ToolRequest :=
  [.compile t.compileRequest, .package (t.packageRequest optimize), .disassemble t.disassembleRequest]

end Input

namespace Toolchain

def leaves (tools : Toolchain) : ToolRequest → FileSystem → FileSystem
  | .compile r, fs => (tools.compile r fs).files
  | .package r, fs => (tools.package r fs).files
  | .disassemble r, fs => (tools.disassemble r fs).files

/-- Why the conversion of `t` does not go on after a request, if it does not. -/
def refusal (tools : Toolchain) (t : Input) : ToolRequest → FileSystem → Option Failure
  | .compile r, fs =>
    match (tools.compile r fs).answer with
    | .error e => some e
    | .ok log => if log.verdict = .failed then some (.compileFailed t.displayName log) else none
  | .package r, fs =>
    match (tools.package r fs).answer with
    | .error e => some e
    | .ok () => none
  | .disassemble r, fs =>
    match (tools.disassemble r fs).answer with
    | .error e => some e
    | .ok () => none

/-- What comes of a list of requests: the visits made, the files after them, and the refusal that
ended them early, if there was one. -/
structure Course where
  visits : List Visit
  files : FileSystem
  stop : Option Failure

/-- The course of these requests from the files `fs` on: each is made, until one is refused. -/
def course (tools : Toolchain) (t : Input) : List ToolRequest → FileSystem → Course
  | [], fs => ⟨[], fs, none⟩
  | r :: rest, fs =>
    match tools.refusal t r fs with
    | some e => ⟨[⟨r, fs⟩], tools.leaves r fs, some e⟩
    | none =>
      let c := tools.course t rest (tools.leaves r fs)
      ⟨⟨r, fs⟩ :: c.visits, c.files, c.stop⟩

/-- Each tool finds the files as the one before left them: the first one finds `fs`, and the last
one leaves `fs'`. -/
inductive Linked (tools : Toolchain) : FileSystem → List Visit → FileSystem → Prop
  | nil {fs} : Linked tools fs [] fs
  | cons {r fs visits fs'} : Linked tools (tools.leaves r fs) visits fs' →
      Linked tools fs (⟨r, fs⟩ :: visits) fs'

theorem course_linked (tools : Toolchain) (t : Input) (requests : List ToolRequest) (fs : FileSystem) :
    tools.Linked fs (tools.course t requests fs).visits (tools.course t requests fs).files := by
  induction requests generalizing fs with
  | nil => exact .nil
  | cons r rest ih =>
    rw [course]
    cases tools.refusal t r fs with
    | some e => exact .cons .nil
    | none => exact .cons (ih _)

theorem course_of_stop_none {tools : Toolchain} {t : Input} {requests : List ToolRequest}
    {fs : FileSystem} (hs : (tools.course t requests fs).stop = none) :
    (tools.course t requests fs).visits.map (·.request) = requests ∧
      ∀ v ∈ (tools.course t requests fs).visits, tools.refusal t v.request v.found = none := by
  induction requests generalizing fs with
  | nil =>
    refine ⟨rfl, fun v hv => ?_⟩
    cases hv
  | cons r rest ih =>
    rw [course] at hs ⊢
    cases hr : tools.refusal t r fs with
    | some e =>
      rw [hr] at hs
      cases hs
    | none =>
      rw [hr] at hs
      obtain ⟨hrequests, hmet⟩ := ih hs
      refine ⟨congrArg (r :: ·) hrequests, fun v hv => ?_⟩
      rcases List.mem_cons.1 hv with rfl | hv
      · exact hr
      · exact hmet v hv

theorem course_congr {tools : Toolchain} {t : Input} {Q : FileSystem → FileSystem → Prop}
    (hQ : ∀ r a b, Q a b →
      tools.refusal t r b = tools.refusal t r a ∧ Q (tools.leaves r a) (tools.leaves r b))
    {a b : FileSystem} (hab : Q a b) (requests : List ToolRequest) :
    (tools.course t requests b).visits.map (·.request) =
      (tools.course t requests a).visits.map (·.request) := by
  induction requests generalizing a b with
  | nil => rfl
  | cons r rest ih =>
    obtain ⟨hrefusal, hleft⟩ := hQ r a b hab
    rw [course, course, hrefusal]
    cases tools.refusal t r a with
    | some e => rfl
    | none => exact congrArg (r :: ·) (ih hleft)

/-- What each visit keeps, the visits keep together. -/
theorem Linked.induct {tools : Toolchain} {R : FileSystem → FileSystem → Prop} {a b : FileSystem}
    {visits : List Visit} (hl : tools.Linked a visits b) (hrefl : ∀ fs, R fs fs)
    (htrans : ∀ {x y z}, R x y → R y z → R x z)
    (hvisits : ∀ v ∈ visits, R v.found (tools.leaves v.request v.found)) : R a b := by
  induction hl with
  | nil => exact hrefl _
  | cons _ ih =>
    exact htrans (hvisits _ List.mem_cons_self)
      (ih fun v hv => hvisits v (List.mem_cons_of_mem _ hv))

end Toolchain

namespace Journal

theorem calls_ofTool (input : Option Path) (j : Journal) :
    Journal.calls (j.filterMap (Host.ofTool input)) = [] := by
  rw [calls, List.filterMap_filterMap, List.filterMap_eq_nil_iff]
  intro e _
  cases e <;> rfl

end Journal

namespace Host
variable {h h' h'' : Host} {visits visits' : List Visit} {files files' : FileSystem}

/-- These visits were made and left the host with `files`.  Otherwise only its log has grown. -/
structure Visited (visits : List Visit) (files : FileSystem) (h h' : Host) : Prop where
  files : h'.files = files
  calls : h'.journal.calls = h.journal.calls ++ visits.map Visit.record
  directory : h'.directory = h.directory
  faults : h'.faults = h.faults
  made : h'.made = h.made

theorem Visited.trans (hx : Visited visits files h h') (hy : Visited visits' files' h' h'') :
    Visited (visits ++ visits') files' h h'' where
  files := hy.files
  calls := by rw [hy.calls, hx.calls, List.map_append, List.append_assoc]
  directory := hy.directory.trans hx.directory
  faults := hy.faults.trans hx.faults
  made := hy.made.trans hx.made

theorem visited_log (h : Host) (line : LogLine) : Visited [] h.files h (h.noting [.log line]) :=
  ⟨rfl, by simp [noting, Journal.calls], rfl, rfl, rfl⟩

/-- Whose lines the log will carry does not matter. -/
theorem Visited.reset (hx : Visited visits files h h') (input : Option Path) :
    Visited visits files h { h' with input } :=
  ⟨hx.files, hx.calls, hx.directory, hx.faults, hx.made⟩

theorem Visited.log (hx : Visited visits files h h') (line : LogLine) :
    Visited visits files h (h'.noting [.log line]) := by
  have hy := hx.trans (h'.visited_log line)
  rw [List.append_nil, hx.files] at hy
  exact hy

theorem visited_call {α : Type} (h : Host) (tool : Tool) (arguments : List OsString)
    (run : FileSystem → ToolRun α) (r : ToolRequest) (hr : r.call = ⟨tool.name, arguments⟩) :
    Visited [⟨r, h.files⟩] (run h.files).files h (h.run (Host.call tool arguments run)).2 := by
  refine ⟨rfl, ?_, rfl, rfl, rfl⟩
  change Journal.calls ((h.journal ++ [.called ⟨tool.name, arguments⟩ h.files]) ++
    (run h.files).events.filterMap (ofTool h.input)) = _
  rw [Journal.calls_append, Journal.calls_append, Journal.calls_ofTool, List.append_nil, ← hr]
  rfl

end Host

end SmaliBuild
