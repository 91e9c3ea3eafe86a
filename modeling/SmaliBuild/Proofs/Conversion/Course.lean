import SmaliBuild.Proofs.Manifest.Frame
import SmaliBuild.Proofs.Sweep.Frame
import SmaliBuild.Proofs.Toolchain.Course
import SmaliBuild.Report
/-!
# The course of a conversion

A run lists its sources, takes the course of its requests, and sweeps if no request was refused
(`run_course`).  Each stage adds its request to the course (`Ends.stage`).
-/
namespace SmaliBuild

namespace Conversion
open Host
variable {tools : Toolchain} {t : Input} {r : ToolRequest} {α : Type} {x : Action (Except Failure α)}
variable {P : FileSystem → α → Prop} {phase next : Phase} {title : String} {h : Host}

/-! ## One stage -/

/-- The host when the stage after `phase` starts its work. -/
def entering (phase next : Phase) (title : String) (h : Host) : Host :=
  (h.noting [.log ⟨.debug, h.input, "Pipeline state", [("from", phase.name), ("to", next.name)]⟩]).noting
    [.log ⟨.info, h.input, title, []⟩]

/-- The line that tells of a failure in `phase`. -/
def abortLine (phase : Phase) (e : Failure) (h : Host) : LogLine :=
  ⟨.debug, h.input, "Pipeline aborted", [("from", phase.name), ("error", e.message)]⟩

theorem visited_entering (phase next : Phase) (title : String) (h : Host) :
    Visited [] h.files h (entering phase next title h) :=
  (h.visited_log _).log _

theorem run_advance (hn : phase.next? = some next) (h : Host) :
    h.run (advance phase) = (next, h.noting [.log ⟨.debug, h.input, "Pipeline state",
      [("from", phase.name), ("to", next.name)]⟩]) := by
  unfold advance
  rw [hn]
  rfl

theorem run_stage (hn : phase.next? = some next) (h : Host) :
    h.run (stage phase title x) =
      match (entering phase next title h).run x with
      | (.ok a, h') => ((.ok a, next), h')
      | (.error e, h') => ((.error e, next.abort), h'.noting [.log (abortLine next e h')]) := by
  rw [stage, run_bind, run_advance hn, run_bind, run_log, run_bind]
  dsimp only [input_noting]
  rw [← entering]
  generalize (entering phase next title h).run x = out
  obtain ⟨answer, h'⟩ := out
  cases answer <;> rfl

/-- The action makes the request `r` and fails if it is refused. -/
def Makes (tools : Toolchain) (t : Input) (r : ToolRequest) (P : FileSystem → α → Prop)
    (x : Action (Except Failure α)) : Prop :=
  ∀ h, Visited [⟨r, h.files⟩] (tools.leaves r h.files) h (h.run x).2 ∧
    match (h.run x).1 with
    | .error e => tools.refusal t r h.files = some e
    | .ok a => tools.refusal t r h.files = none ∧ P h.files a

/-- A failure is on record as the last event, from a phase in which one is foreseen. -/
def Aborted (e : Failure) (h : Host) : Prop :=
  ∃ phase : Phase, phase.canAbort = true ∧ ∃ line : LogLine, line.message = "Pipeline aborted" ∧
    line.fields = [("from", phase.name), ("error", e.message)] ∧
    h.journal.getLast? = some (.log line)

theorem aborted_noting (hab : phase.canAbort = true) (e : Failure) (h : Host) :
    Aborted e (h.noting [.log (abortLine phase e h)]) :=
  ⟨phase, hab, abortLine phase e h, rfl, rfl, by simp [noting]⟩

theorem stage_makes (title : String) (hx : Makes tools t r P x) (hn : phase.next? = some next)
    (hab : next.canAbort = true) (h : Host) :
    ∃ h', Visited [⟨r, h.files⟩] (tools.leaves r h.files) h h' ∧
      ((∃ e, tools.refusal t r h.files = some e ∧
          h.run (stage phase title x) = ((.error e, .aborted), h') ∧ Aborted e h') ∨
        ∃ a, tools.refusal t r h.files = none ∧ P h.files a ∧
          h.run (stage phase title x) = ((.ok a, next), h')) := by
  rw [run_stage hn]
  have hvisit := hx (entering phase next title h)
  generalize (entering phase next title h).run x = out at hvisit ⊢
  obtain ⟨answer, h'⟩ := out
  have hall := (visited_entering phase next title h).trans hvisit.1
  cases answer with
  | error e =>
    refine ⟨_, hall.log (abortLine next e h'), Or.inl ⟨e, hvisit.2, ?_, aborted_noting hab e h'⟩⟩
    simp [Phase.abort, hab]
  | ok a => exact ⟨h', hall, Or.inr ⟨a, hvisit.2.1, hvisit.2.2, rfl⟩⟩

/-! ## The requests -/

theorem package_makes (tools : Toolchain) (t : Input) (q : PackageRequest) :
    Makes tools t (.package q) (fun _ _ => True) (tools.runPackager q) := by
  intro h
  refine ⟨visited_call h .packager _ _ (.package q) rfl, ?_⟩
  have hanswer : (h.run (tools.runPackager q)).1 = (tools.package q h.files).answer := rfl
  rw [hanswer]
  simp only [Toolchain.refusal]
  cases (tools.package q h.files).answer with
  | error e => rfl
  | ok u => exact ⟨rfl, trivial⟩

theorem disassemble_makes (tools : Toolchain) (t : Input) (q : DisassembleRequest) :
    Makes tools t (.disassemble q) (fun _ _ => True) (tools.runDisassembler q) := by
  intro h
  refine ⟨visited_call h .disassembler _ _ (.disassemble q) rfl, ?_⟩
  have hanswer : (h.run (tools.runDisassembler q)).1 = (tools.disassemble q h.files).answer := rfl
  rw [hanswer]
  simp only [Toolchain.refusal]
  cases (tools.disassemble q h.files).answer with
  | error e => rfl
  | ok u => exact ⟨rfl, trivial⟩

theorem run_judge (log : CompilerLog) (h : Host) :
    Visited [] h.files h (h.run (Compiled.judge t log)).2 ∧
      (h.run (Compiled.judge t log)).1 =
        if log.verdict = .failed then .error (.compileFailed t.displayName log) else .ok log := by
  have hsame : Visited [] h.files h h := ⟨rfl, by simp, rfl, rfl, rfl⟩
  unfold Compiled.judge
  cases log.verdict with
  | failed => exact ⟨hsame, rfl⟩
  | passed =>
    dsimp only
    by_cases hb : log.isBlank = true
    · rw [if_pos hb]
      exact ⟨hsame, rfl⟩
    · rw [if_neg hb]
      exact ⟨h.visited_log _, rfl⟩

theorem run_accept (path : Path) (m : Option Manifest) (log : CompilerLog) (h : Host) :
    Visited [] h.files h (h.run (Compiled.accept t path m (.ok log))).2 ∧
      (h.run (Compiled.accept t path m (.ok log))).1 =
        if log.verdict = .failed then .error (.compileFailed t.displayName log)
        else .ok ⟨path, log, m⟩ := by
  obtain ⟨hvisit, hjudge⟩ := run_judge (t := t) log h
  unfold Compiled.accept
  dsimp only
  rw [run_bind, hjudge]
  by_cases hv : log.verdict = .failed
  · rw [if_pos hv, if_pos hv]
    exact ⟨hvisit, rfl⟩
  · rw [if_neg hv, if_neg hv]
    exact ⟨hvisit, rfl⟩

theorem compile_makes (tools : Toolchain) (t : Input) (q : CompileRequest) (path : Path)
    (m : Option Manifest) :
    Makes tools t (.compile q)
      (fun fs c => ∃ log, (tools.compile q fs).answer = .ok log ∧ c = ⟨path, log, m⟩)
      (tools.runCompiler q >>= Compiled.accept t path m) := by
  intro h
  have hcall := visited_call h .compiler q.arguments (tools.compile q) (.compile q) rfl
  have hanswer : (h.run (tools.runCompiler q)).1 = (tools.compile q h.files).answer := rfl
  rw [run_bind, hanswer]
  simp only [Toolchain.refusal]
  cases hc : (tools.compile q h.files).answer with
  | error e => exact ⟨hcall, rfl⟩
  | ok log =>
    obtain ⟨hvisit, haccept⟩ := run_accept (t := t) path m log (h.run (tools.runCompiler q)).2
    refine ⟨hcall.trans hvisit, ?_⟩
    rw [haccept]
    by_cases hv : log.verdict = .failed
    · simp [hv]
    · simp [hv]

/-! ## The whole run -/

/-- The listing of the sources, which only a directory needs. -/
def listing : Input → Action (Except Failure (Option Manifest))
  | .sourceFile _ => pure (.ok none)
  | .sourceDirectory d => do
    match ← Manifest.build d (Input.sourceDirectory d).workspace.manifest with
    | .error e => return .error e
    | .ok m => return .ok (some m)

/-- The host when the conversion of `t` starts its first stage. -/
def begun (t : Input) (h : Host) : Host :=
  entering .idle .compiling "Compiling..." { h with input := some t.path }

theorem run_listing_directory (d : Path) (h : Host) :
    h.run (listing (.sourceDirectory d)) =
      ((h.run (Manifest.build d (Input.sourceDirectory d).workspace.manifest)).1.map some,
        (h.run (Manifest.build d (Input.sourceDirectory d).workspace.manifest)).2) := by
  rw [listing, run_bind]
  cases (h.run (Manifest.build d (Input.sourceDirectory d).workspace.manifest)).1 <;> rfl

theorem calls_listing (h : Host) :
    ((begun t h).run (listing t)).2.journal.calls = h.journal.calls := by
  have hbegun := (visited_entering .idle .compiling "Compiling..." { h with input := some t.path }).calls
  rw [List.map_nil, List.append_nil] at hbegun
  cases t with
  | sourceFile p => exact hbegun
  | sourceDirectory d =>
    rw [run_listing_directory]
    exact (Manifest.build_replaces _ _ _).1.calls.trans hbegun

theorem listing_error_iff {e : Failure} : ((begun t h).run (listing t)).1 = .error e ↔
    ∃ d, t = .sourceDirectory d ∧
      ((begun t h).run (Manifest.build d t.workspace.manifest)).1 = .error e := by
  cases t with
  | sourceFile p =>
    constructor
    · intro hanswer
      cases hanswer
    · rintro ⟨d, hd, -⟩
      cases hd
  | sourceDirectory d =>
    have hmap {x : Except Failure Manifest} : x.map some = .error e ↔ x = .error e := by
      cases x <;> simp [Except.map]
    rw [run_listing_directory, hmap]
    simp

theorem listing_ok_iff : (∃ m, ((begun t h).run (listing t)).1 = .ok m) ↔
    ∀ d, t = .sourceDirectory d →
      ∃ m, ((begun t h).run (Manifest.build d t.workspace.manifest)).1 = .ok m := by
  cases t with
  | sourceFile p =>
    constructor
    · intro _ d hd
      cases hd
    · exact fun _ => ⟨none, rfl⟩
  | sourceDirectory d =>
    have hmap {x : Except Failure Manifest} : (∃ m, x.map some = .ok m) ↔ ∃ m, x = .ok m := by
      cases x <;> simp [Except.map]
    rw [run_listing_directory, hmap]
    simp

theorem listing_isSome {m : Option Manifest} (hm : ((begun t h).run (listing t)).1 = .ok m) :
    m.isSome = t.isDirectory := by
  cases t with
  | sourceFile p =>
    obtain rfl := Except.ok.inj hm
    rfl
  | sourceDirectory d =>
    rw [run_listing_directory] at hm
    generalize ((begun (.sourceDirectory d) h).run
      (Manifest.build d (Input.sourceDirectory d).workspace.manifest)).1 = answer at hm
    cases answer with
    | error e => cases hm
    | ok m' =>
      obtain rfl := Except.ok.inj hm
      rfl

theorem run_ofInput (h : Host) : h.run (Compiled.ofInput tools t t.workspace) =
    match h.run (listing t) with
    | (.error e, h') => (.error e, h')
    | (.ok m, h') =>
      h'.run (tools.runCompiler t.compileRequest >>= Compiled.accept t t.compiled m) := by
  cases t with
  | sourceFile p => rfl
  | sourceDirectory d =>
    have hpath := (Manifest.build_replaces d (Input.sourceDirectory d).workspace.manifest h).2
    change h.run (Compiled.ofDirectory tools d (Input.sourceDirectory d).workspace) = _
    rw [Compiled.ofDirectory, listing, run_bind, run_bind]
    generalize h.run (Manifest.build d (Input.sourceDirectory d).workspace.manifest) = out at hpath ⊢
    obtain ⟨answer, h'⟩ := out
    cases answer with
    | error e => rfl
    | ok m =>
      dsimp only at hpath ⊢
      rw [hpath.1]
      rfl

/-- The first stage: the sources are listed and the first request is made. -/
theorem compile_stage (tools : Toolchain) (t : Input) (h : Host) :
    let listed := (entering .idle .compiling "Compiling..." h).run (listing t)
    match listed.1 with
    | .error e => ∃ h', Visited [] listed.2.files listed.2 h' ∧
      h.run (stage .idle "Compiling..." (Compiled.ofInput tools t t.workspace)) =
        ((.error e, .aborted), h') ∧ Aborted e h'
    | .ok m => ∃ h', Visited [⟨.compile t.compileRequest, listed.2.files⟩]
          (tools.leaves (.compile t.compileRequest) listed.2.files) listed.2 h' ∧
        ((∃ e, tools.refusal t (.compile t.compileRequest) listed.2.files = some e ∧
            h.run (stage .idle "Compiling..." (Compiled.ofInput tools t t.workspace)) =
              ((.error e, .aborted), h') ∧ Aborted e h') ∨
          ∃ log, tools.refusal t (.compile t.compileRequest) listed.2.files = none ∧
            (tools.compile t.compileRequest listed.2.files).answer = .ok log ∧
            h.run (stage .idle "Compiling..." (Compiled.ofInput tools t t.workspace)) =
              ((.ok ⟨t.compiled, log, m⟩, .compiling), h')) := by
  rw [run_stage rfl, run_ofInput]
  generalize (entering .idle .compiling "Compiling..." h).run (listing t) = listed
  obtain ⟨answer, h₁⟩ := listed
  dsimp only
  cases answer with
  | error e => exact ⟨_, h₁.visited_log _, rfl, aborted_noting rfl e h₁⟩
  | ok m =>
    have hmade := compile_makes tools t t.compileRequest t.compiled m h₁
    dsimp only
    generalize h₁.run (tools.runCompiler t.compileRequest >>= Compiled.accept t t.compiled m) = out
      at hmade ⊢
    obtain ⟨answer, h'⟩ := out
    cases answer with
    | error e =>
      exact ⟨_, hmade.1.log _, Or.inl ⟨e, hmade.2, rfl, aborted_noting rfl e h'⟩⟩
    | ok c =>
      obtain ⟨hnone, log, hlog, rfl⟩ := hmade.2
      exact ⟨h', hmade.1, Or.inr ⟨log, hnone, hlog, rfl⟩⟩

/-- From `h` on the requests take this course.  A run for which it is the rest fails as the course says, or
sweeps and ends with the classes `c`. -/
def Ends (t : Input) (c : Compiled) (course : Toolchain.Course) (h : Host)
    (out : (Except Failure Conversion × Phase) × Host) : Prop :=
  ∃ h₁, Visited course.visits course.files h h₁ ∧
    match course.stop with
    | some e => Aborted e h₁ ∧ out = ((.error e, .aborted), h₁)
    | none =>
      let swept := h₁.run (Sweep.run t.workspace t.compiled)
      ∃ h', Visited [] swept.2.files swept.2 h' ∧
        out = ((.ok ⟨t, t.workspace, c, t.workspace.bundle, t.workspace.output, swept.1⟩, .done), h')

/-- A stage puts its request before the rest of the course. -/
theorem Ends.stage {c : Compiled} {rest : List ToolRequest}
    {k : Except Failure α × Phase → Action (Except Failure Conversion × Phase)}
    (hx : Makes tools t r P x) (hn : phase.next? = some next) (hab : next.canAbort = true)
    (hk : ∀ e phase, k (.error e, phase) = pure (.error e, phase))
    (hrest : ∀ a h', P h.files a →
      Ends t c (tools.course t rest h'.files) h' (h'.run (k (.ok a, next)))) :
    Ends t c (tools.course t (r :: rest) h.files) h (h.run (Conversion.stage phase title x >>= k)) := by
  obtain ⟨h', hvisit, ⟨e, hrefused, hstage, habort⟩ | ⟨a, hmet, hP, hstage⟩⟩ :=
    stage_makes title hx hn hab h
  · rw [run_bind, hstage, Toolchain.course, hrefused]
    exact ⟨h', hvisit, habort, congrArg h'.run (hk e .aborted)⟩
  · obtain ⟨h₁, hvisit₁, hstop⟩ := hrest a h' hP
    rw [hvisit.files] at hvisit₁ hstop
    rw [run_bind, hstage, Toolchain.course, hmet]
    exact ⟨h₁, hvisit.trans hvisit₁, hstop⟩

/-- What a run does after its first stage. -/
def afterCompile (tools : Toolchain) (optimize : Bool) (t : Input) :
    Except Failure Compiled × Phase → Action (Except Failure Conversion × Phase)
  | (.error e, phase) => pure (.error e, phase)
  | (.ok c, phase) => do
    match ← Conversion.stage phase "Packaging..."
        (tools.runPackager ⟨c.path, t.workspace.bundle, optimize⟩) with
    | (.error e, phase) => return (.error e, phase)
    | (.ok (), phase) =>
      match ← Conversion.stage phase "Disassembling..."
          (tools.runDisassembler t.disassembleRequest) with
      | (.error e, phase) => return (.error e, phase)
      | (.ok (), phase) =>
        let phase ← advance phase
        Host.log .info "Cleaning..."
        let sweep ← Sweep.run t.workspace c.path
        let phase ← advance phase
        Host.log .info "Done."
        return (.ok ⟨t, t.workspace, c, t.workspace.bundle, t.workspace.output, sweep⟩, phase)

theorem stages_eq (tools : Toolchain) (optimize : Bool) (t : Input) :
    stages tools optimize t =
      Conversion.stage .idle "Compiling..." (Compiled.ofInput tools t t.workspace) >>=
        afterCompile tools optimize t := rfl

theorem afterCompile_ends (tools : Toolchain) (optimize : Bool) {c : Compiled}
    (hc : c.path = t.compiled) (h : Host) :
    Ends t c (tools.course t [.package (t.packageRequest optimize), .disassemble t.disassembleRequest]
      h.files) h (h.run (afterCompile tools optimize t (.ok c, .compiling))) := by
  rw [afterCompile, hc]
  refine Ends.stage (package_makes tools t (t.packageRequest optimize)) rfl rfl (fun _ _ => rfl)
    fun _ h₂ _ => ?_
  refine Ends.stage (disassemble_makes tools t t.disassembleRequest) rfl rfl (fun _ _ => rfl)
    fun _ h₃ _ => ?_
  exact ⟨_, visited_entering .disassembling .cleaning "Cleaning..." h₃, _,
    visited_entering .cleaning .done "Done." _, rfl⟩

/-- The stages after the listing take the course of their requests, and sweep unless that ended early. -/
theorem stages_course (tools : Toolchain) (optimize : Bool) (t : Input) (h : Host) :
    let listed := (entering .idle .compiling "Compiling..." h).run (listing t)
    match listed.1 with
    | .error e => ∃ h', Visited [] listed.2.files listed.2 h' ∧ Aborted e h' ∧
      h.run (stages tools optimize t) = ((.error e, .aborted), h')
    | .ok m =>
      let course := tools.course t (t.requests optimize) listed.2.files
      ∃ h₁, Visited course.visits course.files listed.2 h₁ ∧
        match course.stop with
        | some e => Aborted e h₁ ∧ h.run (stages tools optimize t) = ((.error e, .aborted), h₁)
        | none =>
          let swept := h₁.run (Sweep.run t.workspace t.compiled)
          ∃ log h', (tools.compile t.compileRequest listed.2.files).answer = .ok log ∧
            Visited [] swept.2.files swept.2 h' ∧ h.run (stages tools optimize t) =
              ((.ok ⟨t, t.workspace, ⟨t.compiled, log, m⟩, t.workspace.bundle, t.workspace.output,
                swept.1⟩, .done), h') := by
  have hcompile := compile_stage tools t h
  rw [stages_eq, run_bind]
  generalize (entering .idle .compiling "Compiling..." h).run (listing t) = listed at hcompile ⊢
  obtain ⟨answer, hl⟩ := listed
  dsimp only at hcompile ⊢
  cases answer with
  | error e =>
    obtain ⟨h', hvisit, hstage, habort⟩ := hcompile
    rw [hstage]
    exact ⟨h', hvisit, habort, rfl⟩
  | ok m =>
    obtain ⟨h₁, hvisit₁, ⟨e, hrefused, hstage, habort⟩ | ⟨log, hmet, hlog, hstage⟩⟩ := hcompile
    · rw [hstage, Input.requests, Toolchain.course, hrefused]
      exact ⟨h₁, hvisit₁, habort, rfl⟩
    obtain ⟨h₂, hvisit₂, hstop⟩ :=
      afterCompile_ends (t := t) tools optimize (c := ⟨t.compiled, log, m⟩) rfl h₁
    rw [hvisit₁.files] at hvisit₂ hstop
    rw [hstage, Input.requests, Toolchain.course, hmet]
    refine ⟨h₂, hvisit₁.trans hvisit₂, ?_⟩
    dsimp only
    generalize (tools.course t [.package (t.packageRequest optimize), .disassemble t.disassembleRequest]
      (tools.leaves (.compile t.compileRequest) hl.files)).stop = stop at hstop ⊢
    cases stop with
    | some e => exact hstop
    | none =>
      obtain ⟨h', hswept, hout⟩ := hstop
      exact ⟨log, h', hlog, hswept, hout⟩

/-- A run lists the sources, takes the course of its requests, and sweeps unless that ended early. -/
theorem run_course (tools : Toolchain) (optimize : Bool) (t : Input) (h : Host) :
    let out := h.run (run tools optimize t)
    let listed := (begun t h).run (listing t)
    match listed.1 with
    | .error e => out.1 = (.error e, .aborted) ∧ Aborted e out.2 ∧
      Visited [] listed.2.files listed.2 out.2
    | .ok m =>
      let course := tools.course t (t.requests optimize) listed.2.files
      ∃ h₁, Visited course.visits course.files listed.2 h₁ ∧
        match course.stop with
        | some e => out.1 = (.error e, .aborted) ∧ Aborted e out.2 ∧ Visited [] h₁.files h₁ out.2
        | none =>
          let swept := h₁.run (Sweep.run t.workspace t.compiled)
          ∃ log, (tools.compile t.compileRequest listed.2.files).answer = .ok log ∧
            out.1 = (.ok ⟨t, t.workspace, ⟨t.compiled, log, m⟩, t.workspace.bundle,
              t.workspace.output, swept.1⟩, .done) ∧
            Visited [] swept.2.files swept.2 out.2 := by
  have hstages := stages_course tools optimize t { h with input := some t.path }
  dsimp only at hstages ⊢
  rw [← begun] at hstages
  have hrun {x : Except Failure Conversion × Phase} {h' : Host}
      (hx : Host.run { h with input := some t.path } (stages tools optimize t) = (x, h')) :
      h.run (run tools optimize t) = (x, { h' with input := none }) :=
    congrArg (fun out => (out.1, ({ out.2 with input := none } : Host))) hx
  cases hlisted : ((begun t h).run (listing t)).1 with
  | error e =>
    rw [hlisted] at hstages
    obtain ⟨h', hvisit, habort, hout⟩ := hstages
    rw [hrun hout]
    exact ⟨rfl, habort, hvisit.reset none⟩
  | ok m =>
    rw [hlisted] at hstages
    obtain ⟨h₁, hvisit, hstop⟩ := hstages
    refine ⟨h₁, hvisit, ?_⟩
    cases hs : (tools.course t (t.requests optimize) ((begun t h).run (listing t)).2.files).stop with
    | some e =>
      rw [hs] at hstop
      rw [hrun hstop.2]
      have hsame : Visited [] h₁.files h₁ h₁ := ⟨rfl, by simp, rfl, rfl, rfl⟩
      exact ⟨rfl, hstop.1, hsame.reset none⟩
    | none =>
      rw [hs] at hstop
      obtain ⟨log, h', hlog, hswept, hout⟩ := hstop
      rw [hrun hout]
      exact ⟨log, hlog, rfl, hswept.reset none⟩

/-- The course of a run: that of its requests once the sources are listed. -/
def courseOf (tools : Toolchain) (optimize : Bool) (t : Input) (h : Host) : Toolchain.Course :=
  match (begun t h).run (listing t) with
  | (.error e, h') => ⟨[], h'.files, some e⟩
  | (.ok _, h') => tools.course t (t.requests optimize) h'.files

theorem courseOf_linked (tools : Toolchain) (optimize : Bool) (t : Input) (h : Host) :
    tools.Linked ((begun t h).run (listing t)).2.files (courseOf tools optimize t h).visits
      (courseOf tools optimize t h).files := by
  unfold courseOf
  generalize (begun t h).run (listing t) = listed
  obtain ⟨answer, hl⟩ := listed
  cases answer with
  | error e => exact .nil
  | ok m => exact Toolchain.course_linked tools t (t.requests optimize) hl.files

theorem run_courseOf (tools : Toolchain) (optimize : Bool) (t : Input) (h : Host) :
    let out := h.run (run tools optimize t)
    let course := courseOf tools optimize t h
    ∃ h₁, Visited course.visits course.files ((begun t h).run (listing t)).2 h₁ ∧
      match course.stop with
      | some e => out.1.1 = .error e ∧ Visited [] h₁.files h₁ out.2
      | none =>
        let swept := h₁.run (Sweep.run t.workspace t.compiled)
        (∃ c, out.1.1 = .ok c) ∧ Visited [] swept.2.files swept.2 out.2 := by
  have hcourse := run_course tools optimize t h
  dsimp only at hcourse ⊢
  unfold courseOf
  generalize (begun t h).run (listing t) = listed at hcourse ⊢
  obtain ⟨answer, hl⟩ := listed
  cases answer with
  | error e =>
    obtain ⟨hout, -, hvisit⟩ := hcourse
    exact ⟨hl, ⟨rfl, by simp, rfl, rfl, rfl⟩, by rw [hout], hvisit⟩
  | ok m =>
    obtain ⟨h₁, hvisit, hstop⟩ := hcourse
    refine ⟨h₁, hvisit, ?_⟩
    dsimp only at hstop ⊢
    cases hs : (tools.course t (t.requests optimize) hl.files).stop with
    | some e =>
      rw [hs] at hstop
      exact ⟨by rw [hstop.1], hstop.2.2⟩
    | none =>
      rw [hs] at hstop
      obtain ⟨log, -, hout, hfinal⟩ := hstop
      exact ⟨⟨_, by rw [hout]⟩, hfinal⟩

theorem calls_courseOf (tools : Toolchain) (optimize : Bool) (t : Input) (h : Host) :
    (h.run (run tools optimize t)).2.journal.calls =
      h.journal.calls ++ (courseOf tools optimize t h).visits.map Visit.record := by
  obtain ⟨h₁, hvisit, hstop⟩ := run_courseOf tools optimize t h
  rw [← calls_listing (t := t) h, ← hvisit.calls]
  cases hs : (courseOf tools optimize t h).stop with
  | some e =>
    rw [hs] at hstop
    simpa using hstop.2.calls
  | none =>
    rw [hs] at hstop
    have hsweep := (Sweep.run_goes t.workspace t.compiled h₁).steady.calls
    simpa [hsweep] using hstop.2.calls

theorem calls_run {m : Option Manifest} (hm : ((begun t h).run (listing t)).1 = .ok m)
    (tools : Toolchain) (optimize : Bool) :
    (h.run (run tools optimize t)).2.journal.calls = h.journal.calls ++
      (tools.course t (t.requests optimize)
        ((begun t h).run (listing t)).2.files).visits.map Visit.record := by
  have hcalls := calls_courseOf tools optimize t h
  unfold courseOf at hcalls
  generalize (begun t h).run (listing t) = listed at hm hcalls ⊢
  obtain ⟨answer, hl⟩ := listed
  obtain rfl : answer = .ok m := hm
  exact hcalls

end Conversion
end SmaliBuild
