import SmaliBuild.Proofs.Config.Commands
import SmaliBuild.Proofs.Conversion.Order
import SmaliBuild.Proofs.Conversion.Residue
import SmaliBuild.Proofs.Program.Work
/-!
# The exit status

The status is 0 exactly if the configuration is loaded, the input is resolved and the conversion comes
to its end, and otherwise 1 (`Program.answer_status`).  A conversion comes to its end exactly if
`Conversion.AllMet`, where nothing is said of gaps in the manifest, of paths that a sweep leaves and of
how the processes ended.
-/
namespace SmaliBuild
open Host

/-! ## What decides a conversion -/

namespace Conversion
variable {tools : Toolchain} {optimize : Bool} {t : Input} {h : Host} {f : Failure}

/-- A manifest is made if one is needed, the compiler's log does not mention the marker, and all tools
start. -/
structure AllMet (tools : Toolchain) (optimize : Bool) (t : Input) (h : Host) : Prop where
  listed : ∀ d, t = .sourceDirectory d →
    ∃ m, ((begun t h).run (Manifest.build d t.workspace.manifest)).1 = .ok m
  compiled : ∃ log, compileAnswer tools t h = .ok log ∧ mentionsError log.text = false
  packaged : packageAnswer tools optimize t h = .ok ()
  disassembled : disassembleAnswer tools optimize t h = .ok ()

theorem exists_visits (tools : Toolchain) (optimize : Bool) (t : Input) (h : Host) :
    ∃ visits, InOrder tools optimize t h visits := by
  cases hl : ((begun t h).run (listing t)).1 with
  | error e => exact ⟨[], inOrder_of_error hl⟩
  | ok m => exact ⟨_, inOrder_of_ok hl⟩

theorem run_ok_iff :
    (∃ c, (h.run (run tools optimize t)).1.1 = .ok c) ↔ AllMet tools optimize t h := by
  obtain ⟨visits, hv⟩ := exists_visits tools optimize t h
  rw [hv.ok_iff, hv.disassemble_iff, hv.package_iff, hv.compile_iff]
  constructor
  · rintro ⟨⟨⟨hlisted, hcompiled⟩, hpackaged⟩, hdisassembled⟩
    exact ⟨hlisted, hcompiled, hpackaged, hdisassembled⟩
  · intro hall
    exact ⟨⟨⟨hall.listed, hall.compiled⟩, hall.packaged⟩, hall.disassembled⟩

theorem occurs_of_error (hf : (h.run (run tools optimize t)).1.1 = .error f) :
    ∃ visits, InOrder tools optimize t h visits ∧ Occurs tools optimize t h visits f := by
  obtain ⟨visits, hv⟩ := exists_visits tools optimize t h
  have hnot : ¬ (disassembleVisit tools optimize t h ∈ visits ∧
      disassembleAnswer tools optimize t h = .ok ()) := by
    rw [← hv.ok_iff, hf]
    simp
  obtain ⟨f', hf'⟩ := exists_occurs (hv.compile_iff.trans listing_ok_iff.symm) hv.package_iff
    hv.disassemble_iff hnot
  have hfails := ((hv.fails_iff f').2 hf').1
  rw [hfails] at hf
  exact ⟨visits, hv, Except.error.inj hf ▸ hf'⟩

end Conversion

/-! ## How processes end -/

/-- The two systems start programs with the same effects, but perhaps to different exit statuses. -/
def Launcher.SameButStatus (launch launch' : Launcher) : Prop := ∀ words fs,
  (launch words fs).files = (launch' words fs).files ∧
    (launch words fs).printed = (launch' words fs).printed ∧
    ((∃ status status', (launch words fs).ending = .ok status ∧
        (launch' words fs).ending = .ok status') ∨
      ∃ e, (launch words fs).ending = .error e ∧ (launch' words fs).ending = .error e)

theorem Launcher.SameButStatus.symm {launch launch' : Launcher} (hs : launch.SameButStatus launch') :
    launch'.SameButStatus launch := by
  intro words fs
  obtain ⟨hfiles, hprinted, hending⟩ := hs words fs
  refine ⟨hfiles.symm, hprinted.symm, hending.imp ?_ ?_⟩
  · rintro ⟨status, status', hstatus, hstatus'⟩
    exact ⟨status', status, hstatus', hstatus⟩
  · rintro ⟨e, he, he'⟩
    exact ⟨e, he', he⟩

namespace Config
variable {config : Config} {launch launch' : Launcher} {α : Type} {finish : Printed → α × Journal}
variable {tool : Tool} {arguments : List OsString} {fs : FileSystem}

theorem answer_start : (config.start launch tool arguments finish fs).answer =
    match (launch ((config.command tool).with_ arguments) fs).ending with
    | .error e => .error (.ofStart tool (config.command tool).program e)
    | .ok _ => .ok (finish (launch ((config.command tool).with_ arguments) fs).printed).1 := by
  unfold start
  dsimp only
  cases (launch ((config.command tool).with_ arguments) fs).ending <;> rfl

theorem answer_start_same (hs : launch.SameButStatus launch') :
    (config.start launch tool arguments finish fs).answer =
      (config.start launch' tool arguments finish fs).answer := by
  obtain ⟨-, hprinted, ⟨s, s', hs, hs'⟩ | ⟨e, he, he'⟩⟩ :=
    hs ((config.command tool).with_ arguments) fs
  · rw [answer_start, answer_start, hs, hs', hprinted]
  · rw [answer_start, answer_start, he, he']

theorem files_start_same (hs : launch.SameButStatus launch') :
    (config.start launch tool arguments finish fs).files =
      (config.start launch' tool arguments finish fs).files := by
  rw [files_start, files_start]
  exact (hs _ fs).1

end Config

namespace Conversion
variable {config : Config} {launch launch' : Launcher} {optimize : Bool} {t : Input} {h : Host}

/-- Exit statuses do not decide a conversion. -/
theorem allMet_same (hs : launch.SameButStatus launch')
    (hall : AllMet (config.toolchain launch) optimize t h) :
    AllMet (config.toolchain launch') optimize t h := by
  have hpackage : packageVisit (config.toolchain launch) optimize t h =
      packageVisit (config.toolchain launch') optimize t h :=
    congrArg _ (Config.files_start_same hs)
  have hdisassemble : disassembleVisit (config.toolchain launch) optimize t h =
      disassembleVisit (config.toolchain launch') optimize t h := by
    rw [disassembleVisit, disassembleVisit, hpackage]
    exact congrArg _ (Config.files_start_same hs)
  refine ⟨hall.listed, ?_, ?_, ?_⟩
  · obtain ⟨log, hlog, hmark⟩ := hall.compiled
    exact ⟨log, (Config.answer_start_same hs).symm.trans hlog, hmark⟩
  · have hanswer := hall.packaged
    rw [packageAnswer, hpackage] at hanswer
    exact (Config.answer_start_same hs).symm.trans hanswer
  · have hanswer := hall.disassembled
    rw [disassembleAnswer, hdisassemble] at hanswer
    exact (Config.answer_start_same hs).symm.trans hanswer

theorem build_ne_compileFailed {root path : Path} {name : String} {log : CompilerLog} :
    (h.run (Manifest.build root path)).1 ≠ .error (.compileFailed name log) := by
  rw [Manifest.build, run_bind]
  cases (h.run (absolute root)).1 with
  | error e => simp
  | ok root' =>
    dsimp only
    rw [run_bind, Manifest.create, run_bind]
    cases (((h.run (absolute root)).2.run (Manifest.clear path)).2.run (createFile path)).1 with
    | error e => simp
    | ok l =>
      dsimp only
      rw [run_bind, run_bind]
      simp

/-- The log of a compile failure is what the compiler printed when it was called. -/
theorem called_of_compileFailed {name : String} {log : CompilerLog}
    (hf : (h.run (run (config.toolchain launch) optimize t)).1.1 = .error (.compileFailed name log)) :
    ∃ r fs, (⟨Tool.compiler.name, CompileRequest.arguments r⟩, fs) ∈
        (h.run (run (config.toolchain launch) optimize t)).2.journal.calls ∧
      log = .ofOutput
        ((launch ((config.command .compiler).with_ r.arguments) fs).printed.on .out)
        ((launch ((config.command .compiler).with_ r.arguments) fs).printed.on .err) := by
  have hstart {α : Type} {finish : Printed → α × Journal} {tool : Tool} {arguments : List OsString}
      {fs : FileSystem} : (config.start launch tool arguments finish fs).answer ≠
        .error (.compileFailed name log) := by
    rw [Config.answer_start]
    cases (launch ((config.command tool).with_ arguments) fs).ending with
    | error e =>
      dsimp only
      unfold Failure.ofStart
      split <;> simp
    | ok status => simp
  obtain ⟨visits, hv, hoccurs⟩ := occurs_of_error hf
  cases hoccurs with
  | manifest _ hm => exact absurd hm build_ne_compileFailed
  | compiler _ ha => exact absurd ha hstart
  | marker hcompile ha _ =>
    refine ⟨t.compileRequest, (compileVisit t h).found, ?_, ?_⟩
    · rw [hv.calls]
      exact List.mem_append_right _ (List.mem_map_of_mem hcompile)
    · have hanswer : (config.start launch .compiler t.compileRequest.arguments
          (fun p => (CompilerLog.ofOutput (p.on .out) (p.on .err), [])) (compileVisit t h).found).answer =
            .ok log := ha
      rw [Config.answer_start] at hanswer
      generalize (launch ((config.command .compiler).with_ t.compileRequest.arguments)
        (compileVisit t h).found).ending = ending at hanswer
      cases ending with
      | error e => cases hanswer
      | ok status => exact (Except.ok.inj hanswer).symm
  | packager _ ha => exact absurd ha hstart
  | disassembler _ ha => exact absurd ha hstart

end Conversion

/-! ## What decides a request -/

namespace Program
variable {launch launch' : Launcher} {c : CommandLine} {d : Path} {h : Host} {a : Abort} {f : Failure}

/-- With this configuration and this input the stages of a conversion start on the host `h₂`. -/
def Starts (c : CommandLine) (p : Path) (h : Host) (config : Config) (t : Input) (h₂ : Host) : Prop :=
  ∃ h₁, h.run (loadConfig c.config) = (.ok config, h₁) ∧
    (configured config h₁).run (Input.resolve p) = (.ok t, h₂)

/-- All that a request asks for goes well. -/
inductive Succeeds (launch : Launcher) (c : CommandLine) (h : Host) : Prop
  | convert {p optimize config t h₂ conversion} : c.request = .convert p optimize →
      Starts c p h config t h₂ →
      (h₂.run (Conversion.run (config.toolchain launch) optimize t)).1.1 = .ok conversion →
      Succeeds launch c h
  | clean {p dryRun t} : c.request = .clean p dryRun → (h.run (Input.resolve p)).1 = .ok t →
      Succeeds launch c h

/-- The request, made in the directory `d`, is refused: for its configuration, or else for its input. -/
inductive Refused (c : CommandLine) (d : Path) (h : Host) : Abort → Prop
  | config {p optimize r} : c.request = .convert p optimize →
      (h.run (ConfigFile.find c.config d)).1 = .error r → Refused c d h (.refused r)
  | input {p optimize config h₁ f} : c.request = .convert p optimize →
      h.run (loadConfig c.config) = (.ok config, h₁) →
      ((configured config h₁).run (Input.resolve p)).1 = .error f → Refused c d h (.failed f)
  | target {p dryRun f} : c.request = .clean p dryRun → (h.run (Input.resolve p)).1 = .error f →
      Refused c d h (.failed f)

/-- The conversion fails in one of its stages. -/
inductive Breaks (launch : Launcher) (c : CommandLine) (h : Host) : Failure → Prop
  | stages {p optimize config t h₂ f} : c.request = .convert p optimize →
      Starts c p h config t h₂ →
      (h₂.run (Conversion.run (config.toolchain launch) optimize t)).1.1 = .error f →
      Breaks launch c h f

/-- In a readable directory nothing but the configuration file decides the configuration. -/
theorem run_loadConfig (named : Option Path) (hd : (h.run currentDirectory).1 = .ok d) :
    (h.run (loadConfig named)).1 =
      match (h.run (ConfigFile.find named d)).1 with
      | .error r => .error (.refused r)
      | .ok found => .ok ((found.map (·.config)).getD .standard) := by
  rw [loadConfig, run_bind, run_currentDirectory_snd, hd]
  dsimp only
  rw [run_bind]
  cases (h.run (ConfigFile.find named d)).1 with
  | error r => rfl
  | ok found => cases found <;> rfl

theorem run_convertWith (launch : Launcher) (config : Config) (t : Input) (optimize : Bool) :
    (h.run (convertWith launch config t optimize)).1 =
      match (h.run (Conversion.run (config.toolchain launch) optimize t)).1.1 with
      | .error f => .error (.failed f)
      | .ok conversion => .ok (.ofConversion conversion optimize) := by
  rw [convertWith, run_bind]
  generalize h.run (Conversion.run (config.toolchain launch) optimize t) = out
  obtain ⟨⟨answer, phase⟩, h'⟩ := out
  cases answer <;> rfl

theorem run_perform_convert {p : Path} {optimize : Bool} (hrequest : c.request = .convert p optimize) :
    h.run (perform launch c) = ((h.run (convert launch c.config p optimize)).1.map ConvertReport.items,
      (h.run (convert launch c.config p optimize)).2) := by
  rw [perform, hrequest]
  rfl

theorem run_perform_clean {p : Path} {dryRun : Bool} (hrequest : c.request = .clean p dryRun) :
    h.run (perform launch c) = ((h.run (clean p dryRun)).1.map CleanReport.items,
      (h.run (clean p dryRun)).2) := by
  rw [perform, hrequest]
  rfl

theorem Starts.run_convert {p : Path} {config : Config} {t : Input} {h₂ : Host}
    (hstarts : Starts c p h config t h₂) (launch : Launcher) (optimize : Bool) :
    h.run (convert launch c.config p optimize) = h₂.run (convertWith launch config t optimize) := by
  obtain ⟨h₁, hload, hresolve⟩ := hstarts
  rw [Program.run_convert, hload]
  dsimp only
  rw [hresolve]

theorem perform_of_succeeds (hs : Succeeds launch c h) :
    ∃ items, (h.run (perform launch c)).1 = .ok items := by
  cases hs with
  | convert hrequest hstarts hok =>
    rw [run_perform_convert hrequest, hstarts.run_convert, run_convertWith, hok]
    exact ⟨_, rfl⟩
  | clean hrequest hresolve =>
    rw [run_perform_clean hrequest, Program.clean, run_bind, hresolve]
    exact ⟨_, rfl⟩

theorem perform_of_breaks (hb : Breaks launch c h f) :
    (h.run (perform launch c)).1 = .error (.failed f) := by
  cases hb with
  | stages hrequest hstarts hf =>
    rw [run_perform_convert hrequest, hstarts.run_convert, run_convertWith, hf]
    rfl

theorem perform_of_refused (launch : Launcher) (hd : (h.run currentDirectory).1 = .ok d)
    (hr : Refused c d h a) :
    (h.run (perform launch c)).1 = .error a ∧ Looks h (h.run (perform launch c)).2 := by
  have hload := (looking_loadConfig c.config h).1
  cases hr with
  | @config p optimize r hrequest hfind =>
    have hanswer := run_loadConfig c.config hd
    rw [hfind] at hanswer
    rw [run_perform_convert hrequest, Program.run_convert]
    generalize h.run (loadConfig c.config) = loaded at hload hanswer ⊢
    obtain ⟨answer, h₁⟩ := loaded
    obtain rfl : answer = .error (.refused r) := hanswer
    exact ⟨rfl, hload⟩
  | @input p optimize config h₁ f hrequest hloaded hresolve =>
    have hlook := (Input.looking_resolve p (configured config h₁)).1
    rw [run_perform_convert hrequest, Program.run_convert, hloaded]
    rw [hloaded] at hload
    dsimp only
    generalize (configured config h₁).run (Input.resolve p) = resolved at hresolve hlook ⊢
    obtain ⟨answer, h₂⟩ := resolved
    obtain rfl : answer = .error f := hresolve
    have hready : Looks h₁ (configured config h₁) := ⟨rfl, logs_noting h₁ _⟩
    exact ⟨rfl, IsTrans.trans _ _ _ hload (IsTrans.trans _ _ _ hready hlook)⟩
  | @target p dryRun f hrequest hresolve =>
    have hlook := (Input.looking_resolve p h).1
    rw [run_perform_clean hrequest, Program.clean, run_bind, hresolve]
    exact ⟨rfl, hlook⟩

theorem succeeds_or (launch : Launcher) (hc : ∀ shell, c.request ≠ .completions shell)
    (hd : (h.run currentDirectory).1 = .ok d) :
    Succeeds launch c h ∨ (∃ a, Refused c d h a) ∨ ∃ f, Breaks launch c h f := by
  cases hrequest : c.request with
  | completions shell => exact absurd hrequest (hc shell)
  | clean p dryRun =>
    cases hresolve : (h.run (Input.resolve p)).1 with
    | error f => exact Or.inr (Or.inl ⟨_, .target hrequest hresolve⟩)
    | ok t => exact Or.inl (.clean hrequest hresolve)
  | convert p optimize =>
    have hanswer := run_loadConfig c.config hd
    cases hfind : (h.run (ConfigFile.find c.config d)).1 with
    | error r => exact Or.inr (Or.inl ⟨_, .config hrequest hfind⟩)
    | ok found =>
      rw [hfind] at hanswer
      dsimp only at hanswer
      have hload : h.run (loadConfig c.config) =
          (.ok ((found.map (·.config)).getD .standard), (h.run (loadConfig c.config)).2) :=
        Prod.ext hanswer rfl
      cases hresolve : ((configured ((found.map (·.config)).getD .standard)
          (h.run (loadConfig c.config)).2).run (Input.resolve p)).1 with
      | error f => exact Or.inr (Or.inl ⟨_, .input hrequest hload hresolve⟩)
      | ok t =>
        have hstarts : Starts c p h _ t _ := ⟨_, hload, Prod.ext hresolve rfl⟩
        cases hrun : (Host.run _ (Conversion.run (Config.toolchain _ launch) optimize t)).1.1 with
        | error f => exact Or.inr (Or.inr ⟨f, .stages hrequest hstarts hrun⟩)
        | ok conversion => exact Or.inl (.convert hrequest hstarts hrun)

theorem run_zero_iff : (h.run (run launch c)).1 = 0 ↔
    ∃ items, (h.run (perform launch c)).1 = .ok items := by
  rw [run_eq]
  generalize h.run (perform launch c) = out
  obtain ⟨answer, h'⟩ := out
  cases answer <;> simp

theorem run_of_error (ha : (h.run (perform launch c)).1 = .error a) : h.run (run launch c) =
    (1, (h.run (perform launch c)).2.noting [.output .err (Text.encode a.text.toList)]) := by
  rw [run_eq]
  generalize h.run (perform launch c) = out at ha ⊢
  obtain ⟨answer, h'⟩ := out
  obtain rfl : answer = .error a := ha
  rfl

theorem run_zero_iff_succeeds (launch : Launcher) (hc : ∀ shell, c.request ≠ .completions shell)
    (hd : (h.run currentDirectory).1 = .ok d) :
    (h.run (run launch c)).1 = 0 ↔ Succeeds launch c h := by
  rw [run_zero_iff]
  constructor
  · rintro ⟨items, hitems⟩
    rcases succeeds_or launch hc hd with hs | ⟨a, ha⟩ | ⟨f, hf⟩
    · exact hs
    · cases (hitems.symm.trans (perform_of_refused launch hd ha).1)
    · cases (hitems.symm.trans (perform_of_breaks hf))
  · exact perform_of_succeeds

theorem Succeeds.same (hs : launch.SameButStatus launch') (hsucceeds : Succeeds launch c h) :
    Succeeds launch' c h := by
  cases hsucceeds with
  | clean hrequest hresolve => exact .clean hrequest hresolve
  | convert hrequest hstarts hok =>
    have hall := Conversion.allMet_same hs (Conversion.run_ok_iff.1 ⟨_, hok⟩)
    obtain ⟨conversion, hok'⟩ := Conversion.run_ok_iff.2 hall
    exact .convert hrequest hstarts hok'

/-- What the status of a request says that was made in the directory `d`, and what the host `h'`
afterwards holds if it was given up. -/
structure Concluded (launch : Launcher) (c : CommandLine) (d : Path) (h : Host) (status : Nat)
    (h' : Host) : Prop where
  zero_iff : status = 0 ↔ Succeeds launch c h
  one_iff : status = 1 ↔ ¬ Succeeds launch c h
  cause : status = 1 → (∃ a, Refused c d h a) ∨ ∃ f, Breaks launch c h f
  /-- A conversion that starts is decided by its manifest, by the compiler's log and by the start of
  its tools. -/
  decided : ∀ p optimize config t h₂, c.request = .convert p optimize → Starts c p h config t h₂ →
    (status = 0 ↔ Conversion.AllMet (config.toolchain launch) optimize t h₂)
  same : ∀ launch', launch.SameButStatus launch' → (h.run (run launch' c)).1 = status
  /-- A refusal comes before any call of a tool and any change to the files. -/
  refused : ∀ a, Refused c d h a → status = 1 ∧ h'.files = h.files ∧ ∃ lines : List LogLine,
    h'.journal = h.journal ++ lines.map .log ++ [.output .err (Text.encode a.text.toList)]
  /-- After a failure the standard output has nothing but what the tools printed. -/
  broken : ∀ f, Breaks launch c h f → status = 1 ∧ ∃ config work,
    (h.run (loadConfig c.config)).1 = .ok config ∧
    h'.journal = h.journal ++ work ++ [.output .err (Text.encode (Abort.failed f).text.toList)] ∧
    ∀ verbosity, work.shown verbosity .out = work.calls.flatMap fun x => (config.told launch x).on .out
  /-- After a compile failure the last that is printed is what the compiler printed when it was called,
  but for the blanks at its end, and then the error. -/
  compileFailed : ∀ name log, Breaks launch c h (.compileFailed name log) →
    (∃ before printed blanks, log.text = printed ++ blanks ∧
      (∀ x ∈ blanks, Text.isBlank x = true) ∧ (∀ x ∈ printed.getLast?, Text.isBlank x = false) ∧
      h'.journal = before ++ [.output .err (Text.encode
        (printed ++ '\n' :: (Failure.compileFailed name log).diagnosis.render.toList))]) ∧
    ∃ config r fs, (h.run (loadConfig c.config)).1 = .ok config ∧
      (⟨Tool.compiler.name, CompileRequest.arguments r⟩, fs) ∈ h'.journal.calls ∧
      log = .ofOutput
        ((launch ((config.command .compiler).with_ r.arguments) fs).printed.on .out)
        ((launch ((config.command .compiler).with_ r.arguments) fs).printed.on .err)

theorem Breaks.config (hb : Breaks launch c h f) :
    ∃ config, (h.run (loadConfig c.config)).1 = .ok config := by
  cases hb with
  | stages _ hstarts _ =>
    obtain ⟨h₁, hload, -⟩ := hstarts
    exact ⟨_, congrArg Prod.fst hload⟩

theorem works_of_breaks (hc : ∀ shell, c.request ≠ .completions shell) (hb : Breaks launch c h f) :
    ∃ config, (h.run (loadConfig c.config)).1 = .ok config ∧
      Works config launch h (h.run (perform launch c)).2 := by
  cases perform_works hc launch h with
  | inl hlogs =>
    obtain ⟨config, hload⟩ := hb.config
    exact ⟨config, hload, hlogs.works⟩
  | inr hworks => exact hworks

theorem Starts.eq {p p' : Path} {optimize optimize' : Bool} {config config' : Config} {t t' : Input}
    {h₂ h₂' : Host} (hrequest : c.request = .convert p optimize)
    (hrequest' : c.request = .convert p' optimize') (hstarts : Starts c p h config t h₂)
    (hstarts' : Starts c p' h config' t' h₂') :
    optimize = optimize' ∧ config = config' ∧ t = t' ∧ h₂ = h₂' := by
  obtain ⟨rfl, rfl⟩ := Request.convert.inj (hrequest.symm.trans hrequest')
  obtain ⟨h₁, hload, hresolve⟩ := hstarts
  obtain ⟨h₁', hload', hresolve'⟩ := hstarts'
  obtain ⟨hconfig, rfl⟩ := Prod.mk.inj (hload.symm.trans hload')
  obtain rfl := Except.ok.inj hconfig
  obtain ⟨ht, rfl⟩ := Prod.mk.inj (hresolve.symm.trans hresolve')
  exact ⟨rfl, rfl, Except.ok.inj ht, rfl⟩

theorem succeeds_iff_allMet {p : Path} {optimize : Bool} {config : Config} {t : Input} {h₂ : Host}
    (hrequest : c.request = .convert p optimize) (hstarts : Starts c p h config t h₂) :
    Succeeds launch c h ↔ Conversion.AllMet (config.toolchain launch) optimize t h₂ := by
  rw [← Conversion.run_ok_iff]
  constructor
  · intro hs
    cases hs with
    | clean hclean _ => cases hrequest.symm.trans hclean
    | convert hrequest' hstarts' hok =>
      obtain ⟨rfl, rfl, rfl, rfl⟩ := hstarts.eq hrequest hrequest' hstarts'
      exact ⟨_, hok⟩
  · rintro ⟨conversion, hok⟩
    exact .convert hrequest hstarts hok

theorem called_of_breaks {name : String} {log : CompilerLog}
    (hb : Breaks launch c h (.compileFailed name log)) :
    ∃ config r fs, (h.run (loadConfig c.config)).1 = .ok config ∧
      (⟨Tool.compiler.name, CompileRequest.arguments r⟩, fs) ∈
        (h.run (perform launch c)).2.journal.calls ∧
      log = .ofOutput
        ((launch ((config.command .compiler).with_ r.arguments) fs).printed.on .out)
        ((launch ((config.command .compiler).with_ r.arguments) fs).printed.on .err) := by
  cases hb with
  | @stages p optimize config t h₂ _ hrequest hstarts hf =>
    have hperform : (h.run (perform launch c)).2 =
        (h₂.run (Conversion.run (config.toolchain launch) optimize t)).2 := by
      rw [run_perform_convert hrequest, hstarts.run_convert, convertWith, run_bind]
      generalize h₂.run (Conversion.run (config.toolchain launch) optimize t) = out at hf
      obtain ⟨⟨answer, phase⟩, h'⟩ := out
      obtain rfl : answer = _ := hf
      rfl
    obtain ⟨h₁, hload, -⟩ := hstarts
    obtain ⟨r, fs, hcalled, hlog⟩ := Conversion.called_of_compileFailed hf
    refine ⟨config, r, fs, congrArg Prod.fst hload, ?_, hlog⟩
    rw [hperform]
    exact hcalled

theorem run_concluded (launch : Launcher) (hc : ∀ shell, c.request ≠ .completions shell)
    (hd : (h.run currentDirectory).1 = .ok d) :
    Concluded launch c d h (h.run (run launch c)).1 (h.run (run launch c)).2 := by
  have hzero (launch : Launcher) := run_zero_iff_succeeds launch hc hd
  have hone (launch : Launcher) : (h.run (run launch c)).1 = 1 ↔ ¬ Succeeds launch c h := by
    rw [← hzero, run_eq]
    generalize h.run (perform launch c) = out
    obtain ⟨answer, h'⟩ := out
    cases answer <;> simp
  constructor
  case zero_iff => exact hzero launch
  case one_iff => exact hone launch
  case cause =>
    intro hstatus
    exact (succeeds_or launch hc hd).resolve_left ((hone launch).1 hstatus)
  case decided =>
    intro p optimize config t h₂ hrequest hstarts
    rw [hzero]
    exact succeeds_iff_allMet hrequest hstarts
  case same =>
    intro launch' hs
    by_cases hsucceeds : Succeeds launch c h
    · rw [(hzero launch).2 hsucceeds]
      exact (hzero launch').2 (hsucceeds.same hs)
    · rw [(hone launch).2 hsucceeds]
      exact (hone launch').2 fun hsucceeds' => hsucceeds (hsucceeds'.same hs.symm)
  case refused =>
    intro a ha
    obtain ⟨hperform, hfiles, lines, hj⟩ := perform_of_refused launch hd ha
    rw [run_of_error hperform]
    refine ⟨rfl, hfiles, lines, ?_⟩
    rw [← hj]
    rfl
  case broken =>
    intro f hf
    obtain ⟨config, hload, work, hj, hworked⟩ := works_of_breaks hc hf
    rw [run_of_error (perform_of_breaks hf)]
    refine ⟨rfl, config, work, hload, ?_, fun _ => hworked.shown_out⟩
    rw [← hj]
    rfl
  case compileFailed =>
    intro name log hf
    obtain ⟨config, r, fs, hload, hcalled, hlog⟩ := called_of_breaks hf
    rw [run_of_error (perform_of_breaks hf)]
    obtain ⟨blanks, htrim, hblanks, hlast⟩ := Text.exists_eq_trimEnd log.text
    have htext : (Abort.failed (.compileFailed name log)).text.toList = Text.trimEnd log.text ++
        '\n' :: (Failure.compileFailed name log).diagnosis.render.toList := by
      simp [Abort.text, Abort.compilerLog?, Failure.compilerLog?, Abort.diagnosis]
    refine ⟨⟨(h.run (perform launch c)).2.journal, Text.trimEnd log.text, blanks, htrim, hblanks, hlast, ?_⟩,
      config, r, fs, hload, ?_, hlog⟩
    · rw [← htext]
      rfl
    · change _ ∈ Journal.calls (_ ++ _)
      rw [Journal.calls_append]
      exact List.mem_append_left _ hcalled

/-- The status is 0 exactly if all that is asked for goes well, whatever the manifest lacks, the sweep
leaves and the statuses of the tools are, and otherwise it is 1. -/
theorem answer_status (launch : Launcher) {words : List OsString} (hwords : CommandLine.parse words = .ok c)
    (hc : ∀ shell, c.request ≠ .completions shell) (hd : (h.run currentDirectory).1 = .ok d) :
    let out := h.run (answer launch words)
    Concluded launch c d h out.1.1 out.2 := by
  dsimp only
  rw [run_answer hwords]
  exact run_concluded launch hc hd

/-- The host on which the stages of a conversion start if no configuration is found. -/
def started (h : Host) : Host := (configured .standard h.counted).counted

/-- Without a configuration file a conversion starts with what is found at the path of its input. -/
theorem starts_of_stat {p q : Path} {e : Entry} {x : IoError} {t : Input} (hconfig : c.config = none)
    (hd : (h.run currentDirectory).1 = .ok d)
    (habsent : (h.run (stat (d.join (.ofString Config.fileName)))).1 = .error x)
    (hq : ((configured .standard h.counted).run (absolute p.withoutTrailingQuote)).1 = .ok q)
    (he : ((configured .standard h.counted).run (stat q)).1 = .ok e)
    (ht : Input.ofEntry q e = .ok t) : Starts c p h .standard t (started h) := by
  refine ⟨h.counted, ?_, ?_⟩
  · rw [hconfig]
    exact run_loadConfig_none hd habsent
  · rw [Input.run_resolve hq he, ht]
    rfl

def plainHost : Host := .sound Conversion.plainFiles []

theorem directory_plainHost : (plainHost.run currentDirectory).1 = .ok ⟨[slash]⟩ := by cbv

theorem starts_plainInput (hconfig : c.config = none) :
    Starts c Conversion.plainInput plainHost .standard (.sourceFile Conversion.plainInput)
      (started plainHost) := by
  have habsent : (plainHost.run (stat (Path.join ⟨[slash]⟩ (.ofString Config.fileName)))).1 =
      .error (.os .noEntry) := by cbv
  have hclass : Conversion.plainInput.compiledFile = .ofString "/A.class" := by cbv
  have hentry : Input.ofEntry Conversion.plainInput (.file [] false) =
      .ok (.sourceFile Conversion.plainInput) := by
    rw [Input.ofEntry, hclass, if_neg (by decide), if_neg (by decide)]
  exact starts_of_stat hconfig directory_plainHost habsent (by cbv) (by cbv) hentry

theorem parse_plain : CommandLine.parse (["convert", "/A.java"].map .ofString) =
    .ok ⟨none, 0, false, .convert Conversion.plainInput true⟩ := by cbv

/-- A system on which every program does nothing and exits with this status. -/
def idle (status : Nat) : Launcher := fun _ fs => ⟨.ok (.exited status), fs, []⟩

theorem allMet_idle (status : Nat) (optimize : Bool) {t : Input}
    (hlisted : ∀ d, t = .sourceDirectory d →
      ∃ m, ((Conversion.begun t h).run (Manifest.build d t.workspace.manifest)).1 = .ok m) :
    Conversion.AllMet (Config.standard.toolchain (idle status)) optimize t h where
  listed := hlisted
  compiled := ⟨.ofOutput [] [], Config.answer_start, by cbv⟩
  packaged := Config.answer_start
  disassembled := Config.answer_start

theorem answer_status_idle :
    (plainHost.run (answer (idle 7) (["convert", "/A.java"].map .ofString))).1.1 = 0 := by
  have hconcluded := answer_status (idle 7) parse_plain (fun _ => nofun) directory_plainHost
  exact (hconcluded.decided _ _ _ _ _ rfl (starts_plainInput rfl)).2 (allMet_idle 7 true nofun)

end Program
end SmaliBuild
