import SmaliBuild.Proofs.Conversion.Verdict
import SmaliBuild.Proofs.Program.Status
/-!
# Where two streams meet

The log of a compile has what the compiler wrote to the error stream and, right behind it, what it wrote
to the other.  So the marker can stand where the two meet although neither stream has it: the one ends
with a first part of it and the other begins with the rest (`Straddles`).  A compile that mentions the
marker in neither stream fails exactly then (`ofInput_streams`).
-/
namespace SmaliBuild

/-- The marker begins at the end of the error stream and goes on in the other. -/
def Straddles (err out : Bytes) : Prop :=
  ∃ head tail, head ≠ [] ∧ tail ≠ [] ∧ errorBytes = head ++ tail ∧ head <:+ err ∧ tail <+: out

/-- A byte that is none of the marker's keeps the streams apart: at the end of the one, such as a line
end, or at the beginning of the other. -/
theorem not_straddles_of_notMem {err out : Bytes} {b : UInt8} (hb : b ∉ errorBytes)
    (hends : [b] <:+ err ∨ [b] <+: out) : ¬ Straddles err out := by
  rintro ⟨head, tail, hhead, htail, hmarker, hsuffix, hprefix⟩
  rw [hmarker, List.mem_append, not_or] at hb
  rcases hends with hlast | hfirst
  · have hle : [b].length ≤ head.length := List.length_pos_of_ne_nil hhead
    exact hb.1 ((List.suffix_of_suffix_length_le hlast hsuffix hle).subset List.mem_cons_self)
  · have hle : [b].length ≤ tail.length := List.length_pos_of_ne_nil htail
    exact hb.2 ((List.prefix_of_prefix_length_le hfirst hprefix hle).subset List.mem_cons_self)

theorem CompilerLog.verdict_iff_streams (out err : Bytes) : (ofOutput out err).verdict = .failed ↔
    errorBytes <:+: err ∨ errorBytes <:+: out ∨ Straddles err out :=
  (verdict_ofOutput out err).trans List.infix_append_iff_ne_nil

namespace Compiled
open Host
variable {config : Config} {launch : Launcher} {t : Input} {m : Option Manifest} {h h₁ : Host}
variable {status : ExitStatus} {out err : Bytes}

/-- What comes of the compiler where it is started for `t`. -/
def compilerRun (config : Config) (launch : Launcher) (t : Input) (h : Host) : ProcessRun :=
  launch ((config.command .compiler).with_ t.compileRequest.arguments) h.files

theorem answer_compile (hended : (compilerRun config launch t h).ending = .ok status) :
    ((config.toolchain launch).compile t.compileRequest h.files).answer =
      .ok (.ofOutput ((compilerRun config launch t h).printed.on .out)
        ((compilerRun config launch t h).printed.on .err)) := by
  unfold compilerRun at hended ⊢
  refine Config.answer_start.trans ?_
  rw [hended]

theorem run_ofInput_answer {tools : Toolchain} {log : CompilerLog}
    (hlisted : h.run (Conversion.listing t) = (.ok m, h₁))
    (hanswer : (tools.compile t.compileRequest h₁.files).answer = .ok log) :
    (h.run (ofInput tools t t.workspace)).1 =
      if log.verdict = .failed then .error (.compileFailed t.displayName log)
      else .ok ⟨t.compiled, log, m⟩ := by
  have hcalled : (h₁.run (tools.runCompiler t.compileRequest)).1 =
      (tools.compile t.compileRequest h₁.files).answer := rfl
  rw [Conversion.run_ofInput, hlisted]
  dsimp only
  rw [run_bind, hcalled, hanswer]
  exact (Conversion.run_accept _ _ _ _).2

/-- A compile of which the compiler says nothing of errors, on neither stream, fails if the end of the
error stream and the beginning of the other make up the marker, and otherwise goes well. -/
theorem ofInput_streams (hlisted : h.run (Conversion.listing t) = (.ok m, h₁))
    (hended : (compilerRun config launch t h₁).ending = .ok status)
    (hout : (compilerRun config launch t h₁).printed.on .out = out)
    (herr : (compilerRun config launch t h₁).printed.on .err = err)
    (hplain : ¬ errorBytes <:+: out) (hplain' : ¬ errorBytes <:+: err) :
    let log := CompilerLog.ofOutput out err
    let answer := (h.run (ofInput (config.toolchain launch) t t.workspace)).1
    ((config.toolchain launch).compile t.compileRequest h₁.files).answer = .ok log ∧
      (log.verdict = .failed ↔ Straddles err out) ∧
      (answer = .error (.compileFailed t.displayName log) ↔ Straddles err out) ∧
      (answer = .ok ⟨t.compiled, log, m⟩ ↔ ¬ Straddles err out) := by
  intro log answer
  have hlog : ((config.toolchain launch).compile t.compileRequest h₁.files).answer = .ok log := by
    rw [answer_compile hended, hout, herr]
  have hverdict : log.verdict = .failed ↔ Straddles err out := by
    rw [CompilerLog.verdict_iff_streams, or_iff_right hplain', or_iff_right hplain]
  have hstage : answer = if log.verdict = .failed then .error (.compileFailed t.displayName log)
      else .ok ⟨t.compiled, log, m⟩ := run_ofInput_answer hlisted hlog
  refine ⟨hlog, hverdict, ?_⟩
  by_cases hseam : Straddles err out
  · rw [hstage, if_pos (hverdict.2 hseam)]
    simp [hseam]
  · rw [hstage, if_neg (hverdict.not.2 hseam)]
    simp [hseam]

/-- A system on which every program prints these bytes. -/
def printing (out err : Bytes) : Launcher := fun _ fs =>
  ⟨.ok (.exited 0), fs, [(.err, err), (.out, out)]⟩

/-- Where the error stream ends its last line the other one begins a new one. -/
theorem ofInput_streams_line :
    let out := Text.encode "or\n".toList
    let err := Text.encode "1 err\n".toList
    ¬ errorBytes <:+: out ∧ ¬ errorBytes <:+: err ∧
      (Program.plainHost.run (ofInput (Config.standard.toolchain (printing out err))
        (.sourceFile Conversion.plainInput) (Input.sourceFile Conversion.plainInput).workspace)).1 =
      .ok ⟨Conversion.plainInput.compiledFile, .ofOutput out err, none⟩ := by
  intro out err
  have hapart : ¬ Straddles err out :=
    not_straddles_of_notMem (b := 0x0A) (by decide) (Or.inl (by decide))
  have hplain : ¬ errorBytes <:+: out := by decide
  have hplain' : ¬ errorBytes <:+: err := by decide
  have hlisted : Program.plainHost.run (Conversion.listing (.sourceFile Conversion.plainInput)) =
    (.ok none, Program.plainHost) := rfl
  have hended : (compilerRun .standard (printing out err) (.sourceFile Conversion.plainInput)
    Program.plainHost).ending = .ok (.exited 0) := rfl
  have hstreams := ofInput_streams hlisted hended rfl rfl hplain hplain'
  exact ⟨hplain, hplain', hstreams.2.2.2.2 hapart⟩

/-- A word that nobody printed fails a compile. -/
theorem ofInput_seam :
    let out := Text.encode "or\n".toList
    let err := Text.encode "1 err".toList
    ¬ errorBytes <:+: out ∧ ¬ errorBytes <:+: err ∧
      (Program.plainHost.run (ofInput (Config.standard.toolchain (printing out err))
        (.sourceFile Conversion.plainInput) (Input.sourceFile Conversion.plainInput).workspace)).1 =
      .error (.compileFailed "A.java" ⟨"1 error\n".toList⟩) :=
  ⟨by decide, by decide, by cbv⟩

end Compiled
end SmaliBuild
