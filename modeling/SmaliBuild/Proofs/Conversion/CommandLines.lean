import SmaliBuild.Proofs.Conversion.Residue
import SmaliBuild.Proofs.Text.Lossy
/-!
# The command lines of the tools

All paths that a conversion hands to its tools are absolute.  On the command line each of them starts
with a slash, that of a manifest behind its at sign (`PlainLine`), so none is read as an option or as a
list of files.  From the arguments alone the request can be read back (`ToolRequest.read?_arguments`).
-/
namespace SmaliBuild

theorem OsString.shown_ofString (s : String) : (OsString.ofString s).shown = s := by
  rw [shown, ofString, Text.decodeLossy_encode, String.ofList_toList]

theorem Path.slash_prefix_text {p : Path} (hp : p.isAbsolute = true) : [slash] <+: p.text := by
  unfold isAbsolute at hp
  cases ht : p.text with
  | nil => simp [ht] at hp
  | cons c t =>
    obtain rfl : c = slash := by simpa [ht] using hp
    exact ⟨t, rfl⟩

namespace Sources

def path : Sources → Path
  | file p | manifest p => p

def atSign : UInt8 := 0x40

def ofArgument (a : OsString) : Sources :=
  if a.head? = some atSign then .manifest ⟨a.tail⟩ else .file ⟨a⟩

/-- The at sign tells a manifest from a file, as long as the path of the file is absolute. -/
theorem ofArgument_argument {s : Sources} (hs : s.path.isAbsolute = true) :
    ofArgument s.argument = s := by
  cases s with
  | manifest p => rfl
  | file p =>
    have hhead : p.text.head? = some slash := eq_of_beq hs
    have hsign : p.text.head? ≠ some atSign := by
      rw [hhead]
      decide
    exact if_neg hsign

end Sources

namespace ToolRequest

def Absolute : ToolRequest → Prop
  | .compile r => r.sources.path.isAbsolute = true ∧ ∀ d, r.output = some d → d.isAbsolute = true
  | .package r => r.input.isAbsolute = true ∧ r.output.isAbsolute = true
  | .disassemble r => r.bundle.isAbsolute = true ∧ r.output.isAbsolute = true

theorem absolute_bare {s : Sources} (hs : s.path.isAbsolute = true) :
    (compile ⟨s, none⟩).Absolute := by
  refine ⟨hs, fun d hd => ?_⟩
  cases hd

/-- The request that the arguments of a tool stand for: the options as they are shown, the paths byte
for byte. -/
def read? (arguments : List OsString) : Option ToolRequest :=
  match arguments.map OsString.shown, arguments with
  | ["-source", _, "-target", _, _], [_, _, _, _, a] => some (.compile ⟨.ofArgument a, none⟩)
  | ["-source", _, "-target", _, _, "-d", _], [_, _, _, _, a, _, d] =>
    some (.compile ⟨.ofArgument a, some ⟨d⟩⟩)
  | ["--dex", "--no-strict", "--no-warning", "--output", _, _], [_, _, _, _, o, i] =>
    some (.package ⟨⟨i⟩, ⟨o⟩, true⟩)
  | ["--dex", "--no-strict", "--no-optimize", "--no-warning", "--output", _, _],
      [_, _, _, _, _, o, i] =>
    some (.package ⟨⟨i⟩, ⟨o⟩, false⟩)
  | ["d", _, "-o", _], [_, b, _, o] => some (.disassemble ⟨⟨b⟩, ⟨o⟩⟩)
  | _, _ => none

/-- Whatever its paths spell, the arguments of a request tell which one it is. -/
theorem read?_arguments {r : ToolRequest} (hr : r.Absolute) : read? r.call.arguments = some r := by
  cases r with
  | compile r =>
    obtain ⟨sources, output⟩ := r
    have hsources := Sources.ofArgument_argument hr.1
    cases output with
    | none =>
      have hshown : (call (.compile ⟨sources, none⟩)).arguments.map OsString.shown =
          ["-source", languageLevel, "-target", languageLevel, sources.argument.shown] := by
        simp [call, CompileRequest.arguments, OsString.shown_ofString]
      unfold read?
      rw [hshown]
      change some (ToolRequest.compile ⟨.ofArgument sources.argument, none⟩) = _
      rw [hsources]
    | some d =>
      have hshown : (call (.compile ⟨sources, some d⟩)).arguments.map OsString.shown =
          ["-source", languageLevel, "-target", languageLevel, sources.argument.shown, "-d",
            d.text.shown] := by
        simp [call, CompileRequest.arguments, OsString.shown_ofString]
      unfold read?
      rw [hshown]
      change some (ToolRequest.compile ⟨.ofArgument sources.argument, some d⟩) = _
      rw [hsources]
  | package r =>
    obtain ⟨input, output, optimize⟩ := r
    cases optimize with
    | true =>
      have hshown : (call (.package ⟨input, output, true⟩)).arguments.map OsString.shown =
          ["--dex", "--no-strict", "--no-warning", "--output", output.text.shown,
            input.text.shown] := by
        simp [call, PackageRequest.arguments, OsString.shown_ofString]
      unfold read?
      rw [hshown]
      rfl
    | false =>
      have hshown : (call (.package ⟨input, output, false⟩)).arguments.map OsString.shown =
          ["--dex", "--no-strict", "--no-optimize", "--no-warning", "--output", output.text.shown,
            input.text.shown] := by
        simp [call, PackageRequest.arguments, OsString.shown_ofString]
      unfold read?
      rw [hshown]
      rfl
  | disassemble r =>
    obtain ⟨bundle, output⟩ := r
    have hshown : (call (.disassemble ⟨bundle, output⟩)).arguments.map OsString.shown =
        ["d", bundle.text.shown, "-o", output.text.shown] := by
      simp [call, DisassembleRequest.arguments, OsString.shown_ofString]
    unfold read?
    rw [hshown]
    rfl

theorem arguments_injective {r r' : ToolRequest} (hr : r.Absolute) (hr' : r'.Absolute)
    (heq : r.call.arguments = r'.call.arguments) : r = r' := by
  have hread := read?_arguments hr
  rw [heq, read?_arguments hr'] at hread
  exact (Option.some.inj hread).symm

end ToolRequest

/-! ## Calls of a conversion -/

/-- A call of a tool whose path arguments all start at the root, that of a manifest behind an at sign. -/
inductive PlainLine : ToolCall → Prop
  | file {source : OsString} : [slash] <+: source →
      PlainLine ⟨Tool.compiler.name,
        ["-source", languageLevel, "-target", languageLevel].map .ofString ++ [source]⟩
  | manifest {list classes : OsString} : [Sources.atSign, slash] <+: list → [slash] <+: classes →
      PlainLine ⟨Tool.compiler.name,
        ["-source", languageLevel, "-target", languageLevel].map .ofString ++
          [list, .ofString "-d", classes]⟩
  | package {bundle classes : OsString} (options : List String) :
      (options = [] ∨ options = ["--no-optimize"]) → [slash] <+: bundle → [slash] <+: classes →
      PlainLine ⟨Tool.packager.name,
        (["--dex", "--no-strict"] ++ options ++ ["--no-warning", "--output"]).map .ofString ++
          [bundle, classes]⟩
  | disassemble {bundle output : OsString} : [slash] <+: bundle → [slash] <+: output →
      PlainLine ⟨Tool.disassembler.name, [.ofString "d", bundle, .ofString "-o", output]⟩

namespace Input
variable {fs : FileSystem} {dir : Location} {t : Input} {optimize : Bool} {r : ToolRequest}

theorem Stands.absolute_requests (hs : t.Stands fs dir) (hr : r ∈ t.requests optimize) : r.Absolute := by
  have hfixed (name : String) (hname : slash ∉ OsString.ofString name) :
      (t.directory.join (.ofString name)).isAbsolute = true :=
    Path.isAbsolute_join hs.isAbsolute_directory hname
  have hmanifest : t.workspace.manifest.isAbsolute = true := hfixed manifestName (by decide)
  have hbundle : t.workspace.bundle.isAbsolute = true := hfixed bundleName (by decide)
  have houtput : t.workspace.output.isAbsolute = true := hfixed outputName (by decide)
  have hcompiled : t.compiled.isAbsolute = true := hs.words_compiled.1
  simp only [requests, List.mem_cons, List.not_mem_nil, or_false] at hr
  rcases hr with rfl | rfl | rfl
  · cases t with
    | sourceFile p => exact ToolRequest.absolute_bare hs.regular.isAbsolute
    | sourceDirectory p => exact ⟨hmanifest, fun d hd => Option.some.inj hd ▸ hcompiled⟩
  · exact ⟨hcompiled, hbundle⟩
  · exact ⟨hbundle, houtput⟩

theorem plainLine_of_mem (hr : r ∈ t.requests optimize) (habs : r.Absolute) : PlainLine r.call := by
  simp only [requests, List.mem_cons, List.not_mem_nil, or_false] at hr
  rcases hr with rfl | rfl | rfl
  · cases t with
    | sourceFile p => exact .file (Path.slash_prefix_text habs.1)
    | sourceDirectory p =>
      have hcompiled := habs.2 _ rfl
      have hlist := List.prefix_cons_inj Sources.atSign |>.2 (Path.slash_prefix_text habs.1)
      exact .manifest hlist (Path.slash_prefix_text hcompiled)
  · have hoptions : (if optimize then [] else ["--no-optimize"]) = [] ∨
        (if optimize then [] else ["--no-optimize"]) = ["--no-optimize"] := by
      cases optimize
      · exact Or.inr rfl
      · exact Or.inl rfl
    exact .package _ hoptions (Path.slash_prefix_text habs.2) (Path.slash_prefix_text habs.1)
  · exact .disassemble (Path.slash_prefix_text habs.1) (Path.slash_prefix_text habs.2)

end Input

theorem Toolchain.request_mem_of_course {tools : Toolchain} {t : Input} {requests : List ToolRequest}
    {fs : FileSystem} : ∀ v ∈ (tools.course t requests fs).visits, v.request ∈ requests := by
  induction requests generalizing fs with
  | nil => exact fun v hv => absurd hv List.not_mem_nil
  | cons r rest ih =>
    rw [course]
    cases tools.refusal t r fs with
    | some e =>
      intro v hv
      rw [List.mem_singleton.1 hv]
      exact List.mem_cons_self
    | none =>
      intro v hv
      cases List.mem_cons.1 hv with
      | inl heq => exact heq ▸ List.mem_cons_self
      | inr hv => exact List.mem_cons_of_mem r (ih v hv)

namespace Conversion
variable {tools : Toolchain} {optimize : Bool} {t : Input} {h : Host}

theorem request_mem_of_courseOf :
    ∀ v ∈ (courseOf tools optimize t h).visits, v.request ∈ t.requests optimize := by
  unfold courseOf
  split
  · exact fun v hv => absurd hv List.not_mem_nil
  · exact Toolchain.request_mem_of_course

/-- The command lines of the tools are unambiguous.  For every input that was accepted, a run puts on
record, after the calls made before it, calls for requests of its input; in each of them all paths are
absolute and start with a slash, or with an at sign and a slash if it is the manifest.  Of all requests
whose paths are absolute, different ones have different arguments, from which they can be read back. -/
theorem run_unambiguous :
    (∀ (typed : Path) (t : Input) (h h' : Host), h.run (Input.resolve typed) = (.ok t, h') →
      ∀ (tools : Toolchain) (optimize : Bool) (k : Host), ∃ visits : List Visit,
        (k.run (run tools optimize t)).2.journal.calls =
            k.journal.calls ++ visits.map Visit.record ∧
          ∀ v ∈ visits,
            v.request ∈ t.requests optimize ∧ v.request.Absolute ∧ PlainLine v.request.call) ∧
      (∀ r : ToolRequest, r.Absolute → ToolRequest.read? r.call.arguments = some r) ∧
      ∀ r r' : ToolRequest, r.Absolute → r'.Absolute →
        r.call.arguments = r'.call.arguments → r = r' := by
  refine ⟨fun typed t h h' hok tools optimize k => ?_, fun r => ToolRequest.read?_arguments,
    fun r r' => ToolRequest.arguments_injective⟩
  obtain ⟨-, hstands, -⟩ := Input.resolve_ok hok
  refine ⟨_, calls_courseOf tools optimize t k, fun v hv => ?_⟩
  have hmem := request_mem_of_courseOf v hv
  have habsolute := hstands.absolute_requests hmem
  exact ⟨hmem, habsolute, Input.plainLine_of_mem hmem habsolute⟩

/-- A run on a source file calls its tools plainly.  To compile a file and to compile a manifest of the
same name are different command lines. -/
theorem run_unambiguous_plain :
    let h := (Host.sound plainFiles []).counted
    (∃ visits : List Visit,
        (h.run (run latelyFailingTools false (.sourceFile plainInput))).2.journal.calls =
          visits.map Visit.record ∧ ∀ v ∈ visits, PlainLine v.request.call) ∧
      (ToolRequest.compile ⟨.file plainInput, none⟩).call.arguments ≠
        (ToolRequest.compile ⟨.manifest plainInput, none⟩).call.arguments := by
  obtain ⟨hruns, -, hinjective⟩ := run_unambiguous
  have habsolute : plainInput.isAbsolute = true := by cbv
  constructor
  · obtain ⟨visits, hcalls, hvisits⟩ := hruns _ _ _ _ resolve_plainInput latelyFailingTools false
      (Host.sound plainFiles []).counted
    exact ⟨visits, hcalls, fun v hv => (hvisits v hv).2.2⟩
  · intro heq
    have hfile : (ToolRequest.compile ⟨.file plainInput, none⟩).Absolute :=
      ToolRequest.absolute_bare habsolute
    have hmanifest : (ToolRequest.compile ⟨.manifest plainInput, none⟩).Absolute :=
      ToolRequest.absolute_bare habsolute
    have hsame := hinjective _ _ hfile hmanifest heq
    simp at hsame

end Conversion
end SmaliBuild
