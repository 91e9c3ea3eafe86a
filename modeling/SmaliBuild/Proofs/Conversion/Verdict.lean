import SmaliBuild.Proofs.Conversion.Order
import SmaliBuild.Proofs.Text.Lossy
/-!
# Verdicts from raw output

The verdict on a compile is taken from text that was decoded, but it is a matter of bytes: a compile
has failed exactly if the bytes of `error` stand in what the compiler wrote, the error stream read
first.  Malformed bytes can neither hide the word nor spell it, and it counts where it begins at the
end of one stream and ends in the other.
-/
namespace SmaliBuild

def errorBytes : Bytes := [0x65, 0x72, 0x72, 0x6F, 0x72]

theorem encode_errorMarker : Text.encode errorMarker.toList = errorBytes := by decide

theorem ascii_errorMarker : Text.Ascii errorMarker.toList := by
  intro c hc
  have hbytes : errorMarker.toList = ['e', 'r', 'r', 'o', 'r'] := rfl
  rw [hbytes] at hc
  fin_cases hc <;> decide

theorem mentionsError_iff_of_aligned {bytes : Bytes} {s : List Char} (h : Text.Aligned bytes s) :
    mentionsError s = true ↔ errorBytes <:+: bytes := by
  rw [mentionsError, occursIn_iff, ← h.infix_iff ascii_errorMarker, encode_errorMarker]

theorem mentionsError_decodeLossy (stream : Bytes) :
    mentionsError (Text.decodeLossy stream) = true ↔ errorBytes <:+: stream :=
  mentionsError_iff_of_aligned (Text.decoded_decodeLossy stream).aligned

namespace CompilerLog

theorem aligned_ofOutput (out err : Bytes) : Text.Aligned (err ++ out) (ofOutput out err).text :=
  (Text.decoded_decodeLossy err).aligned.append (Text.decoded_decodeLossy out).aligned

theorem verdict_ofOutput (out err : Bytes) :
    (ofOutput out err).verdict = .failed ↔ errorBytes <:+: err ++ out :=
  verdict_eq_failed_iff.trans (mentionsError_iff_of_aligned (aligned_ofOutput out err))

end CompilerLog

/-- Whether a compile has failed is a search for the marker in the raw output, and the answer carries
the log as it was decoded, each stream by itself. -/
theorem Compiled.judge_ofOutput (out err : Bytes) (t : Input) (h : Host) :
    (∃ first second, Text.Decoded err first ∧ Text.Decoded out second ∧
      (CompilerLog.ofOutput out err).text = first ++ second) ∧
    (∀ stream, mentionsError (Text.decodeLossy stream) = true ↔ errorBytes <:+: stream) ∧
    ((CompilerLog.ofOutput out err).verdict = .failed ↔ errorBytes <:+: err ++ out) ∧
    (h.run (Compiled.judge t (CompilerLog.ofOutput out err))).1 =
      if errorBytes <:+: err ++ out then
        .error (.compileFailed t.displayName (CompilerLog.ofOutput out err))
      else .ok (CompilerLog.ofOutput out err) := by
  refine ⟨⟨_, _, Text.decoded_decodeLossy err, Text.decoded_decodeLossy out, rfl⟩,
    mentionsError_decodeLossy, CompilerLog.verdict_ofOutput out err, ?_⟩
  rw [(Conversion.run_judge _ h).2]
  exact if_congr (CompilerLog.verdict_ofOutput out err) rfl rfl

/-- The marker is found across the end of the error stream. -/
example : (CompilerLog.ofOutput [0x72] [0x65, 0x72, 0x72, 0x6F]).verdict = .failed := by
  cbv

end SmaliBuild
