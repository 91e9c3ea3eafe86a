import SmaliBuild.Proofs.Program.Status
/-!
# Verbosity

How much of the log is shown changes nothing but what stands on the error stream, and there a less
verbose run only leaves texts out (`Program.answer_quieter`).  Its lines are among those of the more
verbose run as well if the tools whose printing passes through end their lines: a text without a line
end runs on into the log line behind it, if that is shown (`Program.answer_runs_on`).
-/
namespace SmaliBuild

/-! ## Lines of bytes -/

namespace Text

def lineFeed : UInt8 := 10

/-- The lines of a text, without the bytes that end them. -/
def byteLines : Bytes → List Bytes
  | [] => []
  | b :: rest =>
    if b = lineFeed then [] :: byteLines rest
    else match byteLines rest with
      | [] => [[b]]
      | line :: lines => (b :: line) :: lines

/-- The last line of the text has its end. -/
def Whole (bytes : Bytes) : Prop := bytes = [] ∨ bytes.getLast? = some lineFeed

instance (bytes : Bytes) : Decidable (Whole bytes) := inferInstanceAs (Decidable (_ ∨ _))

variable {a b : Bytes}

theorem whole_nil : Whole [] := Or.inl rfl

theorem whole_concat (a : Bytes) : Whole (a ++ [lineFeed]) := Or.inr (by simp)

theorem Whole.append (ha : Whole a) (hb : Whole b) : Whole (a ++ b) := by
  cases hb with
  | inl hb => simpa [hb] using ha
  | inr hb => exact Or.inr (by simp [hb])

theorem byteLines_append (ha : Whole a) : byteLines (a ++ b) = byteLines a ++ byteLines b := by
  induction a with
  | nil => rfl
  | cons x a ih =>
    cases a with
    | nil =>
      have hx : x = lineFeed := by simpa [Whole] using ha
      simp [byteLines, hx]
    | cons y a =>
      have hrest : byteLines (y :: a ++ b) = byteLines (y :: a) ++ byteLines b :=
        ih (by simpa [Whole] using ha)
      have hne : byteLines (y :: a) ≠ [] := by
        rw [byteLines]
        split
        · simp
        · split <;> simp
      rw [List.cons_append, byteLines, byteLines, hrest]
      by_cases hx : x = lineFeed
      · rw [if_pos hx, if_pos hx, List.cons_append]
      · rw [if_neg hx, if_neg hx]
        obtain ⟨line, lines, hlines⟩ := List.exists_cons_of_ne_nil hne
        rw [hlines]
        rfl

theorem whole_encode (s : String) : Whole (encode (s ++ "\n").toList) := by
  have hend : encode "\n".toList = [lineFeed] := by decide
  rw [String.toList_append, encode, List.flatMap_append, ← encode, ← encode, hend]
  exact whole_concat _

end Text

open Text

theorem LogLine.whole_render (line : LogLine) : Whole (encode line.render.toList) := whole_encode _

theorem ReportItem.whole_text (i : ReportItem) : Whole (encode i.text.toList) := by
  cases i with
  | newline => exact whole_encode ""
  | «section» title =>
    have htext : text («section» title) = title ++ ":" ++ "\n" := by
      rw [String.append_assoc]
      rfl
    rw [htext]
    exact whole_encode _
  | _ => exact whole_encode _

theorem Program.whole_text (a : Abort) : Whole (encode a.text.toList) := by
  rw [Abort.text, Diagnosis.render, ← String.append_assoc]
  exact whole_encode _

/-! ## Journals at two levels -/

namespace Journal
variable {config : Config} {launch : Launcher} {j k : Journal} {quiet loud : Level}

/-- What an event adds to the error stream, if it adds something. -/
def textOf? (verbosity : Level) : Event → Option Bytes
  | .log line =>
    if line.level.rank ≤ verbosity.rank then some (encode line.render.toList) else none
  | .output .err bytes => some bytes
  | _ => none

def texts (verbosity : Level) (j : Journal) : List Bytes := j.filterMap (textOf? verbosity)

def errorOf? : Event → Option Bytes
  | .output .err bytes => some bytes
  | _ => none

/-- The texts on the error stream that are not from the log, in order. -/
def errors (j : Journal) : List Bytes := j.filterMap errorOf?

theorem flatten_texts (verbosity : Level) (j : Journal) :
    (j.texts verbosity).flatten = j.shown verbosity .err := by
  induction j with
  | nil => rfl
  | cons e j ih =>
    rw [shown_cons, ← ih, texts, List.filterMap_cons]
    cases e with
    | log line =>
      by_cases hl : line.level.rank ≤ verbosity.rank
      · simp [textOf?, shownOf, hl, texts]
      · simp [textOf?, shownOf, hl, texts]
    | output stream bytes => cases stream <;> simp [textOf?, shownOf, texts]
    | called call files => simp [textOf?, shownOf, texts]

theorem filterMap_sublist {f g : Event → Option Bytes} (hfg : ∀ e, f e = none ∨ f e = g e)
    (j : Journal) : (j.filterMap f).Sublist (j.filterMap g) := by
  induction j with
  | nil => exact List.Sublist.refl _
  | cons e j ih =>
    rw [List.filterMap_cons, List.filterMap_cons]
    cases hfg e with
    | inl hf =>
      rw [hf]
      cases g e with
      | none => exact ih
      | some bytes => exact ih.cons bytes
    | inr hf =>
      rw [hf]
      cases g e with
      | none => exact ih
      | some bytes => exact ih.cons_cons bytes

theorem texts_sublist (hlevel : quiet.rank ≤ loud.rank) (j : Journal) :
    (j.texts quiet).Sublist (j.texts loud) := by
  refine filterMap_sublist (fun e => ?_) j
  cases e with
  | log line =>
    by_cases hq : line.level.rank ≤ quiet.rank
    · exact Or.inr (by simp [textOf?, hq, hq.trans hlevel])
    · exact Or.inl (by simp [textOf?, hq])
  | output stream bytes => cases stream <;> exact Or.inr rfl
  | called call files => exact Or.inr rfl

theorem errors_sublist (verbosity : Level) (j : Journal) :
    j.errors.Sublist (j.texts verbosity) := by
  refine filterMap_sublist (fun e => ?_) j
  cases e with
  | log line => exact Or.inl rfl
  | output stream bytes => cases stream <;> exact Or.inr rfl
  | called call files => exact Or.inl rfl

theorem shown_out_eq (quiet loud : Level) (j : Journal) : j.shown quiet .out = j.shown loud .out := by
  induction j with
  | nil => rfl
  | cons e j ih =>
    rw [shown_cons, shown_cons, ih]
    cases e with
    | log line => simp [shownOf]
    | output stream bytes => rfl
    | called call files => rfl

/-- At each level the error stream has whole lines, and at a lower level a part of them. -/
structure Layered (j : Journal) : Prop where
  whole : ∀ verbosity, Whole (j.shown verbosity .err)
  sublist : ∀ quiet loud : Level, quiet.rank ≤ loud.rank →
    (byteLines (j.shown quiet .err)).Sublist (byteLines (j.shown loud .err))

theorem layered_nil : Layered [] := ⟨fun _ => whole_nil, fun _ _ _ => List.Sublist.refl _⟩

theorem Layered.append (hj : Layered j) (hk : Layered k) : Layered (j ++ k) := by
  constructor
  · intro verbosity
    rw [shown_append]
    exact (hj.whole verbosity).append (hk.whole verbosity)
  · intro quiet loud hlevel
    rw [shown_append, shown_append, byteLines_append (hj.whole quiet), byteLines_append (hj.whole loud)]
    exact (hj.sublist quiet loud hlevel).append (hk.sublist quiet loud hlevel)

theorem layered_log (line : LogLine) : Layered [.log line] := by
  have hshown (verbosity : Level) : shown verbosity .err [.log line] =
      if line.level.rank ≤ verbosity.rank then encode line.render.toList else [] := by
    simp [shown, shownOf]
  constructor
  · intro verbosity
    rw [hshown]
    split
    · exact line.whole_render
    · exact whole_nil
  · intro quiet loud hlevel
    rw [hshown, hshown]
    by_cases hq : line.level.rank ≤ quiet.rank
    · rw [if_pos hq, if_pos (hq.trans hlevel)]
    · rw [if_neg hq]
      exact List.nil_sublist _

theorem layered_of_shown {bytes : Bytes} (hj : ∀ verbosity, j.shown verbosity .err = bytes)
    (hwhole : Whole bytes) : Layered j := by
  constructor
  · intro verbosity
    rwa [hj]
  · intro quiet loud _
    rw [hj, hj]

theorem layered_lines (lines : List LogLine) : Layered (lines.map .log) := by
  induction lines with
  | nil => exact layered_nil
  | cons line lines ih => exact (layered_log line).append ih

/-- The lines of some work are layered if the tools whose printing the user sees end theirs. -/
theorem Worked.layered (hj : Worked config launch j)
    (hwhole : ∀ x ∈ j.calls, Whole ((config.told launch x).on .err)) : Layered j := by
  induction hj with
  | nil => exact layered_nil
  | log _ ih => exact (layered_log _).append (ih hwhole)
  | @call call files begun ended j _ ih =>
    rw [calls_call, List.forall_mem_cons] at hwhole
    have hcall : Layered [.called call files] := layered_of_shown (fun _ => rfl) whole_nil
    have htold : Layered (config.told launch (call, files)).events :=
      layered_of_shown (fun _ => shown_events _) hwhole.1
    exact hcall.append ((layered_log begun).append
      (htold.append ((layered_lines ended).append (ih hwhole.2))))

theorem layered_report (items : List ReportItem) : Layered (items.map ReportItem.event) := by
  induction items with
  | nil => exact layered_nil
  | cons i items ih =>
    have hitem : Layered [i.event] := by
      cases hs : i.stream with
      | out => exact layered_of_shown (fun _ => by simp [ReportItem.event, shown, shownOf, hs]) whole_nil
      | err =>
        exact layered_of_shown (fun _ => by simp [ReportItem.event, shown, shownOf, hs]) i.whole_text
    exact hitem.append ih

end Journal

/-! ## The program at two levels -/

namespace Program
open Host

variable {launch : Launcher} {words words' : List OsString} {c c' : CommandLine}

/-- The tools that this command line has started end their lines, as far as the user sees them. -/
def Tidy (launch : Launcher) (c : CommandLine) (h : Host) (j : Journal) : Prop :=
  ∀ config, (h.run (loadConfig c.config)).1 = .ok config →
    ∀ x ∈ j.calls, Whole ((config.told launch x).on .err)

theorem perform_layered (launch : Launcher) (c : CommandLine) (h : Host) :
    ∃ j, (h.run (perform launch c)).2.journal = h.journal ++ j ∧ (Tidy launch c h j → j.Layered) := by
  by_cases hc : ∀ shell, c.request ≠ .completions shell
  · cases perform_works hc launch h with
    | inl hlogs =>
      obtain ⟨lines, hj⟩ := hlogs
      exact ⟨_, hj, fun _ => Journal.layered_lines lines⟩
    | inr hworks =>
      obtain ⟨config, hconfig, j, hj, hworked⟩ := hworks
      exact ⟨j, hj, fun htidy => hworked.layered (htidy config hconfig)⟩
  · obtain ⟨shell, hshell⟩ : ∃ shell, c.request = .completions shell := by simpa using hc
    refine ⟨[.output .out (encode shell.script.toList)], ?_, fun _ =>
      Journal.layered_of_shown (fun _ => rfl) whole_nil⟩
    rw [perform, hshell]
    rfl

/-- The lines of a run are layered if the tools whose printing the user sees end theirs. -/
theorem run_layered (launch : Launcher) (c : CommandLine) (h : Host) :
    ∃ j, (h.run (run launch c)).2.journal = h.journal ++ j ∧ (Tidy launch c h j → j.Layered) := by
  obtain ⟨j, hj, hlayered⟩ := perform_layered launch c h
  have hbefore {k : Journal} (htidy : Tidy launch c h (j ++ k)) : j.Layered := by
    refine hlayered fun config hconfig x hx => htidy config hconfig x ?_
    rw [Journal.calls_append]
    exact List.mem_append_left _ hx
  rw [run_eq]
  generalize h.run (perform launch c) = out at hj
  obtain ⟨answer, h'⟩ := out
  cases answer with
  | ok items =>
    refine ⟨j ++ items.map ReportItem.event, ?_, fun htidy =>
      (hbefore htidy).append (Journal.layered_report items)⟩
    rw [← List.append_assoc, ← hj]
    rfl
  | error a =>
    refine ⟨j ++ [.output .err (encode a.text.toList)], ?_, fun htidy =>
      (hbefore htidy).append (Journal.layered_of_shown (fun _ => ?_) (whole_text a))⟩
    · rw [← List.append_assoc, ← hj]
      rfl
    · simp [Journal.shown, Journal.shownOf]

theorem run_eq_of_request (hrequest : c.request = c'.request) (hconfig : c.config = c'.config) :
    run launch c = run launch c' := by
  rw [run, run, perform, perform, hrequest, hconfig]

/-- Of two command lines that ask for the same, the less verbose one does the same, with the same exit
status, the same calls and the same standard output, and a part of the texts on the error stream, among
them all that are not from the log.  Its lines there are a part of the lines if the tools whose
printing the user sees end theirs. -/
theorem answer_quieter (launch : Launcher) (h : Host) (hc : CommandLine.parse words = .ok c)
    (hc' : CommandLine.parse words' = .ok c') (hrequest : c.request = c'.request)
    (hconfig : c.config = c'.config) (hlevel : c.verbosity.rank ≤ c'.verbosity.rank) :
    let quiet := h.run (answer launch words)
    let loud := h.run (answer launch words')
    quiet.1.1 = loud.1.1 ∧ quiet.2 = loud.2 ∧ ∃ j, quiet.2.journal = h.journal ++ j ∧
      j.shown quiet.1.2 .out = j.shown loud.1.2 .out ∧
      (∀ verbosity, (j.texts verbosity).flatten = j.shown verbosity .err) ∧
      j.errors.Sublist (j.texts quiet.1.2) ∧ (j.texts quiet.1.2).Sublist (j.texts loud.1.2) ∧
      (Tidy launch c h j →
        (byteLines (j.shown quiet.1.2 .err)).Sublist (byteLines (j.shown loud.1.2 .err))) := by
  obtain ⟨j, hj, hlayered⟩ := run_layered launch c h
  dsimp only
  rw [run_answer hc, run_answer hc', ← run_eq_of_request hrequest hconfig]
  refine ⟨rfl, rfl, j, hj, ?_, fun _ => Journal.flatten_texts _ j, ?_, ?_, fun htidy => ?_⟩
  · exact Journal.shown_out_eq _ _ j
  · exact Journal.errors_sublist _ j
  · exact Journal.texts_sublist hlevel j
  · exact (hlayered htidy).sublist _ _ hlevel

/-- A system on which the packager prints a text on its error stream. -/
def telling (bytes : Bytes) : Launcher := fun words fs =>
  ⟨.ok (.exited 0), fs, if words.head? = some (.ofString Tool.packager.key) then [(.err, bytes)] else []⟩

theorem parse_quiet : CommandLine.parse (["-q", "convert", "/A.java"].map .ofString) =
    .ok ⟨none, 0, true, .convert Conversion.plainInput true⟩ := by cbv

/-- What the packager prints is a whole line. -/
theorem answer_quieter_line :
    let launch := telling [100, 120, lineFeed]
    let quiet := plainHost.run (answer launch (["-q", "convert", "/A.java"].map .ofString))
    let loud := plainHost.run (answer launch (["convert", "/A.java"].map .ofString))
    quiet.1.1 = loud.1.1 ∧ quiet.2 = loud.2 ∧
      (byteLines (quiet.2.journal.shown quiet.1.2 .err)).Sublist
        (byteLines (loud.2.journal.shown loud.1.2 .err)) := by
  obtain ⟨hstatus, hhost, j, hj, -, -, -, -, hlines⟩ :=
    answer_quieter (telling [100, 120, lineFeed]) plainHost parse_quiet parse_plain rfl rfl (by decide)
  have htidy : Tidy (telling [100, 120, lineFeed])
      ⟨none, 0, true, .convert Conversion.plainInput true⟩ plainHost j := by
    intro config _ x _
    unfold Config.told telling
    cases Tool.ofName? x.1.tool with
    | none => exact whole_nil
    | some tool =>
      dsimp only
      split
      · exact whole_nil
      · split
        · decide
        · exact whole_nil
  refine ⟨hstatus, hhost, ?_⟩
  rw [← hhost, hj]
  exact hlines htidy

set_option maxRecDepth 2000 in
/-- What the packager prints does not end its line, and runs on into the line behind it. -/
theorem answer_runs_on :
    let quiet := plainHost.run (answer (telling [100, 120]) (["-q", "convert", "/A.java"].map .ofString))
    let loud := plainHost.run (answer (telling [100, 120]) (["convert", "/A.java"].map .ofString))
    ¬ (byteLines (quiet.2.journal.shown quiet.1.2 .err)).Sublist
        (byteLines (loud.2.journal.shown loud.1.2 .err)) := by
  have hshown : let j := (plainHost.run (run (telling [100, 120])
      ⟨none, 0, true, .convert Conversion.plainInput true⟩)).2.journal
      (j.shown .error .err, (byteLines (j.shown .info .err)).elem [100, 120]) =
        ([100, 120], false) := by
    rw [run_eq, run_perform_convert rfl, (starts_plainInput rfl).run_convert]
    cbv
  obtain ⟨hquiet, hloud⟩ := Prod.mk.inj hshown
  have hsame : run (telling [100, 120]) ⟨none, 0, false, .convert Conversion.plainInput true⟩ =
      run (telling [100, 120]) ⟨none, 0, true, .convert Conversion.plainInput true⟩ :=
    run_eq_of_request rfl rfl
  dsimp only
  rw [run_answer parse_quiet, run_answer parse_plain, hsame]
  intro hlines
  have hfirst : [100, 120] ∈ byteLines ((plainHost.run (run (telling [100, 120])
      ⟨none, 0, true, .convert Conversion.plainInput true⟩)).2.journal.shown .error .err) := by
    rw [hquiet]
    decide
  have hsecond := List.elem_eq_true_of_mem (hlines.subset hfirst)
  cases hloud.symm.trans hsecond

end Program
end SmaliBuild
