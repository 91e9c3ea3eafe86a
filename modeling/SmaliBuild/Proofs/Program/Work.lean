import SmaliBuild.Proofs.Host.Logging
import SmaliBuild.Proofs.Toolchain.Course
import SmaliBuild.Program
/-!
# What the work of a request lets out

Before it is reported, the work of a request puts nothing into the journal but log lines and calls of
tools, each call followed by what the user sees of the tool's printing between two log lines
(`Journal.Worked`).  This holds for each stage and so for the whole (`Program.perform_works`).
-/
namespace SmaliBuild
open Host
variable {config : Config} {launch : Launcher}

def Tool.ofName? (s : String) : Option Tool := Tool.all.find? fun t => t.name == s

@[simp] theorem Tool.ofName?_name (t : Tool) : Tool.ofName? t.name = some t := by
  cases t <;> decide

/-- What the user sees of what a called tool prints: nothing if it did not start, and nothing of what
the compiler prints. -/
def Config.told (c : Config) (launch : Launcher) (x : ToolCall × FileSystem) : Printed :=
  match Tool.ofName? x.1.tool with
  | none => []
  | some tool =>
    let run := launch ((c.command tool).with_ x.1.arguments) x.2
    match run.ending with
    | .error _ => []
    | .ok _ => if tool = .compiler then [] else run.printed

namespace Journal
variable {j k : Journal}

/-- Log lines and calls of tools, each with what the user sees of it between log lines. -/
inductive Worked (config : Config) (launch : Launcher) : Journal → Prop
  | nil : Worked config launch []
  | log {line j} : Worked config launch j → Worked config launch (.log line :: j)
  | call {call : ToolCall} {files : FileSystem} {begun : LogLine} {ended : List LogLine} {j} :
      Worked config launch j →
      Worked config launch (.called call files :: .log begun ::
        ((config.told launch (call, files)).events ++ (ended.map .log ++ j)))

theorem Worked.append (hj : Worked config launch j) (hk : Worked config launch k) :
    Worked config launch (j ++ k) := by
  induction hj with
  | nil => exact hk
  | log _ ih => exact .log ih
  | call _ ih => simpa only [List.cons_append, List.append_assoc] using .call ih

theorem worked_lines (lines : List LogLine) : Worked config launch (lines.map .log) := by
  induction lines with
  | nil => exact .nil
  | cons line lines ih => exact .log ih

@[simp] theorem calls_lines (lines : List LogLine) : calls (lines.map .log) = [] := by
  simp [calls, List.filterMap_map]

@[simp] theorem calls_events (p : Printed) : calls p.events = [] := by
  simp [calls, Printed.events, List.filterMap_map]

theorem calls_call (call : ToolCall) (files : FileSystem) (begun : LogLine) (p : Printed)
    (ended : List LogLine) (j : Journal) :
    calls (.called call files :: .log begun :: (p.events ++ (ended.map .log ++ j))) =
      (call, files) :: calls j := by
  change (call, files) :: calls (p.events ++ (ended.map .log ++ j)) = _
  rw [calls_append, calls_append, calls_events, calls_lines]
  rfl

section
variable {verbosity : Level} {stream : Stream}

theorem shown_append (j k : Journal) :
    shown verbosity stream (j ++ k) = shown verbosity stream j ++ shown verbosity stream k :=
  List.flatMap_append

theorem shown_cons (e : Event) (j : Journal) :
    shown verbosity stream (e :: j) = shownOf verbosity stream e ++ shown verbosity stream j :=
  List.flatMap_cons

@[simp] theorem shown_events (p : Printed) : shown verbosity stream p.events = p.on stream := by
  simp [shown, Printed.events, Printed.on, List.flatMap_map, shownOf]

/-- The log is not on the standard output. -/
@[simp] theorem shown_lines (lines : List LogLine) : shown verbosity .out (lines.map .log) = [] := by
  simp [shown, shownOf, List.flatMap_map]

/-- The standard output of some work is what the tools tell the user there. -/
theorem Worked.shown_out (hj : Worked config launch j) :
    shown verbosity .out j = j.calls.flatMap fun x => (config.told launch x).on .out := by
  induction hj with
  | nil => rfl
  | log _ ih => exact ih
  | @call call files begun ended j _ ih =>
    rw [calls_call, List.flatMap_cons, shown_cons, shown_cons, shown_append, shown_append,
      shown_events, shown_lines, ih]
    rfl

end

theorem Worked.printed {stream : Stream} {bytes : Bytes} (hj : Worked config launch j)
    (he : .output stream bytes ∈ j) : ∃ x ∈ j.calls, (stream, bytes) ∈ config.told launch x := by
  induction hj with
  | nil => cases he
  | log _ ih => exact ih (by simpa using he)
  | @call call files begun ended j _ ih =>
    rw [calls_call]
    have hparts : .output stream bytes ∈ (config.told launch (call, files)).events ∨
        .output stream bytes ∈ j := by
      simpa using he
    cases hparts with
    | inl htold =>
      refine ⟨_, List.mem_cons_self, ?_⟩
      simpa [Printed.events] using htold
    | inr hrest =>
      obtain ⟨x, hx, htold⟩ := ih hrest
      exact ⟨x, List.mem_cons_of_mem _ hx, htold⟩

end Journal

namespace Host
variable {α : Type} {h h' : Host} {x : Action α}

/-- Between the two hosts some work was done. -/
def Works (config : Config) (launch : Launcher) (h h' : Host) : Prop :=
  ∃ j, h'.journal = h.journal ++ j ∧ Journal.Worked config launch j

instance : Std.Refl (Works config launch) := ⟨fun _ => ⟨[], by simp, .nil⟩⟩

instance : IsTrans Host (Works config launch) := ⟨fun _ _ _ ⟨j, hx, hj⟩ ⟨k, hy, hk⟩ =>
  ⟨j ++ k, by rw [hy, hx, List.append_assoc], hj.append hk⟩⟩

theorem Logs.works (hl : h.Logs h') : Works config launch h h' := by
  obtain ⟨lines, hj⟩ := hl
  exact ⟨_, hj, Journal.worked_lines lines⟩

abbrev Working (config : Config) (launch : Launcher) (a : Action α) : Prop :=
  Ensures (Works config launch) (fun _ => True) a

theorem Ensures.working (hx : Logging x) : Working config launch x :=
  hx.mono (fun _ _ => Logs.works) fun _ _ => trivial

theorem filterMap_ofTool_events (input : Option Path) (p : Printed) :
    p.events.filterMap (ofTool input) = p.events := by
  simp [Printed.events, List.filterMap_map, Function.comp_def, ofTool]

/-- What a configured tool lets out, if the user sees what is printed of all tools but the compiler. -/
theorem events_start {finish : Printed → α × Journal} (tool : Tool) (arguments : List OsString)
    (fs : FileSystem) (input : Option Path)
    (hfinish : ∀ p, (finish p).2 = if tool = .compiler then [] else p.events) :
    ∃ (begun : LogLine) (ended : List LogLine), (config.start launch tool arguments finish
        fs).events.filterMap (ofTool input) =
      .log begun :: ((config.told launch (⟨tool.name, arguments⟩, fs)).events ++
        ended.map .log) := by
  let begun : LogLine := ⟨.debug, input, s!"Running {tool}",
    [("command", shownCommand ((config.command tool).with_ arguments))]⟩
  unfold Config.start Config.told
  simp only [Tool.ofName?_name]
  cases (launch ((config.command tool).with_ arguments) fs).ending with
  | error e => exact ⟨begun, [], rfl⟩
  | ok status =>
    refine ⟨begun, [⟨.debug, input, s!"{tool.title} exited", [("status", status.text)]⟩], ?_⟩
    dsimp only
    rw [List.cons_append, List.filterMap_cons, List.filterMap_append, hfinish]
    by_cases ht : tool = .compiler
    · rw [if_pos ht, if_pos ht]
      rfl
    · rw [if_neg ht, if_neg ht, filterMap_ofTool_events]
      rfl

theorem working_start {finish : Printed → α × Journal} (tool : Tool) (arguments : List OsString)
    (hfinish : ∀ p, (finish p).2 = if tool = .compiler then [] else p.events) :
    Working config launch (call tool arguments (config.start launch tool arguments finish)) := by
  intro h
  obtain ⟨begun, ended, hevents⟩ := @events_start config launch α finish tool arguments h.files
    h.input hfinish
  refine ⟨⟨_, ?_, @Journal.Worked.call config launch ⟨tool.name, arguments⟩ h.files begun ended _
    .nil⟩, trivial⟩
  change (h.journal ++ [.called ⟨tool.name, arguments⟩ h.files]) ++
    (config.start launch tool arguments finish h.files).events.filterMap (ofTool h.input) = _
  rw [hevents, List.append_assoc, List.append_nil]
  rfl

end Host

/-! ## Conversions -/

namespace Compiled

theorem logging_accept (t : Input) (path : Path) (manifest : Option Manifest)
    (answer : Except Failure CompilerLog) : Logging (accept t path manifest answer) := by
  cases answer with
  | error e => exact .pure trivial
  | ok log =>
    have hjudge : Logging (judge t log) := by
      unfold judge
      cases log.verdict with
      | failed => exact .pure trivial
      | passed =>
        dsimp only
        split
        · exact .pure trivial
        · exact (logging_log _ _ _).bind fun _ _ => .pure trivial
    refine hjudge.bind fun answer _ => ?_
    cases answer with
    | error e => exact .pure trivial
    | ok log => exact .pure trivial

theorem working_ofInput (t : Input) (w : Workspace) :
    Working config launch (ofInput (config.toolchain launch) t w) := by
  have hcompile (r : CompileRequest) :
      Working config launch ((config.toolchain launch).runCompiler r) :=
    working_start .compiler r.arguments fun _ => rfl
  cases t with
  | sourceFile file => exact (hcompile _).bind fun answer _ => (logging_accept _ _ _ answer).working
  | sourceDirectory d =>
    refine (Manifest.logging_build d w.manifest).working.bind fun answer _ => ?_
    cases answer with
    | error e => exact .pure trivial
    | ok m => exact (hcompile _).bind fun answer _ => (logging_accept _ _ _ answer).working

end Compiled

namespace Conversion
variable {α : Type}

theorem logging_advance (phase : Phase) : Logging (advance phase) := by
  unfold advance
  cases phase.next? with
  | none => exact .pure trivial
  | some next => exact (logging_log _ _ _).bind fun _ _ => .pure trivial

theorem logging_abort (phase : Phase) (e : Failure) : Logging (abort phase e) :=
  (logging_log _ _ _).bind fun _ _ => .pure trivial

theorem working_stage {x : Action (Except Failure α)} (phase : Phase) (title : String)
    (hx : Working config launch x) : Working config launch (stage phase title x) := by
  refine (logging_advance phase).working.bind fun phase _ => ?_
  refine (logging_log .info title []).working.bind fun _ _ => hx.bind fun answer _ => ?_
  cases answer with
  | ok a => exact .pure trivial
  | error e => exact (logging_abort phase e).working.bind fun _ _ => .pure trivial

theorem working_stages (optimize : Bool) (t : Input) :
    Working config launch (stages (config.toolchain launch) optimize t) := by
  refine (working_stage _ _ (Compiled.working_ofInput t t.workspace)).bind fun out _ => ?_
  obtain ⟨answer, phase⟩ := out
  cases answer with
  | error e => exact .pure trivial
  | ok c =>
    refine (working_stage phase "Packaging..." (working_start .packager _ fun _ => rfl)).bind
      fun out _ => ?_
    obtain ⟨answer, phase⟩ := out
    cases answer with
    | error e => exact .pure trivial
    | ok =>
      refine (working_stage phase "Disassembling..." (working_start .disassembler _ fun _ => rfl)).bind
        fun out _ => ?_
      obtain ⟨answer, phase⟩ := out
      cases answer with
      | error e => exact .pure trivial
      | ok =>
        refine (logging_advance phase).working.bind fun phase _ => ?_
        refine (logging_log .info _ []).working.bind fun _ _ => ?_
        refine (Sweep.logging_run t.workspace c.path).working.bind fun sweep _ => ?_
        refine (logging_advance phase).working.bind fun phase _ => ?_
        exact (logging_log .info _ []).working.bind fun _ _ => .pure trivial

theorem working_run (optimize : Bool) (t : Input) :
    Working config launch (run (config.toolchain launch) optimize t) := by
  refine (logging_setInput (some t.path)).working.bind fun _ _ => ?_
  refine (working_stages optimize t).bind fun result _ => ?_
  exact (logging_setInput none).working.bind fun _ _ => .pure trivial

end Conversion

/-! ## Requests -/

namespace ReportItem

/-- A piece of a report as it goes into the journal. -/
def event (i : ReportItem) : Event := .output i.stream (Text.encode i.text.toList)

theorem run_printAll (items : List ReportItem) (h : Host) :
    h.run (printAll items) = ((), h.noting (items.map event)) := by
  induction items generalizing h with
  | nil => simp [printAll, noting]
  | cons i items ih =>
    rw [printAll, run_bind]
    change (h.noting [i.event]).run (printAll items) = _
    rw [ih]
    simp [noting]

end ReportItem

namespace Program
variable {h : Host}

theorem looking_loadConfig (named : Option Path) : Looking (loadConfig named) := by
  refine looking_currentDirectory.bind fun answer _ => ?_
  cases answer with
  | error e => exact .pure trivial
  | ok directory =>
    refine (ConfigFile.looking_find named directory).bind fun answer _ => ?_
    split
    · exact .pure trivial
    · exact .pure trivial
    · exact (looking_log _ _ _).bind fun _ _ => .pure trivial

theorem run_loadConfig_none {d : Path} {e : IoError} (hd : (h.run currentDirectory).1 = .ok d)
    (he : (h.run (stat (d.join (.ofString Config.fileName)))).1 = .error e) :
    h.run (loadConfig none) = (.ok .standard, h.counted) := by
  have hfind : h.run (ConfigFile.find none d) = (.ok none, h.counted) := by
    rw [ConfigFile.find, run_bind, run_stat_snd, he]
    rfl
  rw [loadConfig, run_bind, run_currentDirectory_snd, hd]
  dsimp only
  rw [run_bind, hfind]
  rfl

theorem looking_logEntries (ps : List Path) : Looking (logEntries ps) := by
  induction ps with
  | nil => exact .pure trivial
  | cons p ps ih => exact (looking_log _ _ _).bind fun _ _ => ih

theorem working_convertWith (t : Input) (optimize : Bool) :
    Working config launch (convertWith launch config t optimize) := by
  refine (Conversion.working_run optimize t).bind fun out _ => ?_
  obtain ⟨answer, phase⟩ := out
  cases answer with
  | error f => exact .pure trivial
  | ok c => exact (looking_logEntries _).logging.working.bind fun _ _ => .pure trivial

theorem logging_clean (p : Path) (dryRun : Bool) : Logging (clean p dryRun) := by
  refine (Input.looking_resolve p).logging.bind fun answer _ => ?_
  cases answer with
  | error f => exact .pure trivial
  | ok t =>
    have hperform : Logging (CleanReport.perform t dryRun) := by
      unfold CleanReport.perform
      split
      · exact (Sweep.logging_existing _).bind fun _ _ => .pure trivial
      · exact (Sweep.logging_run _ _).bind fun _ _ => .pure trivial
    exact hperform.bind fun _ _ => .pure trivial

/-- The host on which the input of a conversion with this configuration is resolved. -/
def configured (config : Config) (h : Host) : Host :=
  h.noting [.log ⟨.debug, h.input, "Using toolchain",
    Tool.all.map fun t => (t.key, (config.command t).text)⟩]

theorem run_convert (launch : Launcher) (named : Option Path) (p : Path) (optimize : Bool) (h : Host) :
    h.run (convert launch named p optimize) =
      match h.run (loadConfig named) with
      | (.error a, h₁) => (.error a, h₁)
      | (.ok config, h₁) =>
        match (configured config h₁).run (Input.resolve p) with
        | (.error f, h₂) => (.error (.failed f), h₂)
        | (.ok t, h₂) => h₂.run (convertWith launch config t optimize) := by
  rw [convert, run_bind]
  generalize h.run (loadConfig named) = loaded
  obtain ⟨answer, h₁⟩ := loaded
  cases answer with
  | error a => rfl
  | ok config =>
    dsimp only
    rw [run_bind, run_log, run_bind]
    dsimp only
    rw [← configured]
    generalize (configured config h₁).run (Input.resolve p) = resolved
    obtain ⟨answer, h₂⟩ := resolved
    cases answer <;> rfl

/-- Once the configuration is loaded, a conversion works with its tools; before that, and where it is
refused, there are only log lines. -/
theorem convert_works (launch : Launcher) (named : Option Path) (p : Path) (optimize : Bool)
    (h : Host) : h.Logs (h.run (convert launch named p optimize)).2 ∨
      ∃ config, (h.run (loadConfig named)).1 = .ok config ∧
        Works config launch h (h.run (convert launch named p optimize)).2 := by
  have hload := (looking_loadConfig named h).1.logs
  rw [run_convert]
  generalize h.run (loadConfig named) = loaded at hload ⊢
  obtain ⟨answer, h₁⟩ := loaded
  cases answer with
  | error a => exact Or.inl hload
  | ok config =>
    have hready : h.Logs (configured config h₁) :=
      IsTrans.trans _ _ _ hload (logs_noting h₁ _)
    have hresolve := (Input.looking_resolve p (configured config h₁)).1.logs
    refine Or.inr ⟨config, rfl, IsTrans.trans _ _ _ hready.works ?_⟩
    dsimp only
    generalize (configured config h₁).run (Input.resolve p) = resolved at hresolve ⊢
    obtain ⟨answer, h₂⟩ := resolved
    cases answer with
    | error f => exact hresolve.works
    | ok t => exact IsTrans.trans _ _ _ hresolve.works (working_convertWith t optimize h₂).1

/-- The work of a conversion or a sweep. -/
theorem perform_works {c : CommandLine} (hc : ∀ shell, c.request ≠ .completions shell)
    (launch : Launcher) (h : Host) : h.Logs (h.run (perform launch c)).2 ∨
      ∃ config, (h.run (loadConfig c.config)).1 = .ok config ∧
        Works config launch h (h.run (perform launch c)).2 := by
  unfold perform
  cases hrequest : c.request with
  | convert p optimize => exact convert_works launch c.config p optimize h
  | clean p dryRun => exact Or.inl (logging_clean p dryRun h).1
  | completions shell => exact absurd hrequest (hc shell)

/-- A request that was carried out is reported and one that was not is diagnosed. -/
theorem run_eq (launch : Launcher) (c : CommandLine) (h : Host) : h.run (run launch c) =
    match h.run (perform launch c) with
    | (.ok items, h') => (0, h'.noting (items.map ReportItem.event))
    | (.error a, h') => (1, h'.noting [.output .err (Text.encode a.text.toList)]) := by
  rw [run, run_bind]
  generalize h.run (perform launch c) = out
  obtain ⟨answer, h'⟩ := out
  cases answer with
  | error a => rfl
  | ok items =>
    dsimp only
    rw [run_bind, ReportItem.run_printAll]
    rfl

theorem run_answer {launch : Launcher} {words : List OsString} {c : CommandLine}
    (hc : CommandLine.parse words = .ok c) (h : Host) : h.run (answer launch words) =
      (((h.run (run launch c)).1, c.verbosity), (h.run (run launch c)).2) := by
  rw [answer, hc]
  rfl

end Program
end SmaliBuild
