import SmaliBuild.Proofs.Conversion.Course
/-!
# The order of a conversion

The requests of a conversion come in one order, each is made only if all before it were met, and the
first that is not met decides the result.  `InOrder` says so in terms of what the tools answer.
-/
namespace SmaliBuild

theorem CompilerLog.verdict_eq_failed_iff {log : CompilerLog} :
    log.verdict = .failed ↔ mentionsError log.text = true := by
  unfold verdict
  split <;> simp_all

def Visit.left (tools : Toolchain) (v : Visit) : FileSystem := tools.leaves v.request v.found

namespace Conversion
open Host

section
variable (tools : Toolchain) (optimize : Bool) (t : Input) (h : Host)

/-- The visit to the compiler, if there is one: it finds the files as the listing left them. -/
def compileVisit : Visit := ⟨.compile t.compileRequest, ((begun t h).run (listing t)).2.files⟩

def packageVisit : Visit := ⟨.package (t.packageRequest optimize), (compileVisit t h).left tools⟩

def disassembleVisit : Visit :=
  ⟨.disassemble t.disassembleRequest, (packageVisit tools optimize t h).left tools⟩

def compileAnswer : Except Failure CompilerLog :=
  (tools.compile t.compileRequest (compileVisit t h).found).answer

def packageAnswer : Except Failure Unit :=
  (tools.package (t.packageRequest optimize) (packageVisit tools optimize t h).found).answer

def disassembleAnswer : Except Failure Unit :=
  (tools.disassemble t.disassembleRequest (disassembleVisit tools optimize t h).found).answer

/-- The run fails with `e`, in a phase in which a failure is foreseen. -/
def FailsWith (e : Failure) : Prop :=
  (h.run (run tools optimize t)).1 = (.error e, .aborted) ∧ Aborted e (h.run (run tools optimize t)).2

/-- The run comes to its end after a sweep from the host `h₁` on: the very sweep that cleans up after
the input at any time. -/
def EndsFrom (h₁ : Host) : Prop :=
  let swept := h₁.run (Sweep.run t.workspace t.compiled)
  (∃ c : Conversion, (h.run (run tools optimize t)).1 = (.ok c, .done) ∧
    c.compiled.manifest.isSome = t.isDirectory ∧ c.compiled.path = t.compiled ∧
    c.sweep = swept.1) ∧
  (h.run (run tools optimize t)).2.files = swept.2.files ∧
  (h₁.run (CleanReport.perform t false)).2 = swept.2

/-- A step of a run that makes these visits fails with this failure. -/
inductive Occurs (visits : List Visit) : Failure → Prop
  | manifest {d e} : t = .sourceDirectory d →
      ((begun t h).run (Manifest.build d t.workspace.manifest)).1 = .error e → Occurs visits e
  | compiler {e} : compileVisit t h ∈ visits → compileAnswer tools t h = .error e → Occurs visits e
  | marker {log} : compileVisit t h ∈ visits → compileAnswer tools t h = .ok log →
      mentionsError log.text = true → Occurs visits (.compileFailed t.displayName log)
  | packager {e} : packageVisit tools optimize t h ∈ visits →
      packageAnswer tools optimize t h = .error e → Occurs visits e
  | disassembler {e} : disassembleVisit tools optimize t h ∈ visits →
      disassembleAnswer tools optimize t h = .error e → Occurs visits e

/-- A run that makes these visits goes by the rules: the visits come in order, each depends on what
comes before it, the run ends well if all of it does and otherwise with the failure that occurs, and
the sweep waits for the last tool. -/
structure InOrder (visits : List Visit) : Prop where
  calls : (h.run (run tools optimize t)).2.journal.calls =
    h.journal.calls ++ visits.map Visit.record
  order : visits <+:
    [compileVisit t h, packageVisit tools optimize t h, disassembleVisit tools optimize t h]
  compile_iff : compileVisit t h ∈ visits ↔ ∀ d, t = .sourceDirectory d →
    ∃ m, ((begun t h).run (Manifest.build d t.workspace.manifest)).1 = .ok m
  package_iff : packageVisit tools optimize t h ∈ visits ↔ compileVisit t h ∈ visits ∧
    ∃ log, compileAnswer tools t h = .ok log ∧ mentionsError log.text = false
  disassemble_iff : disassembleVisit tools optimize t h ∈ visits ↔
    packageVisit tools optimize t h ∈ visits ∧ packageAnswer tools optimize t h = .ok ()
  ok_iff : (∃ c, (h.run (run tools optimize t)).1.1 = .ok c) ↔
    disassembleVisit tools optimize t h ∈ visits ∧ disassembleAnswer tools optimize t h = .ok ()
  fails_iff : ∀ e, FailsWith tools optimize t h e ↔ Occurs tools optimize t h visits e
  unswept : ¬ (disassembleVisit tools optimize t h ∈ visits ∧
      disassembleAnswer tools optimize t h = .ok ()) →
    Visited visits ((visits.getLast?.map (·.left tools)).getD (compileVisit t h).found)
      ((begun t h).run (listing t)).2 (h.run (run tools optimize t)).2
  swept : disassembleVisit tools optimize t h ∈ visits →
    disassembleAnswer tools optimize t h = .ok () →
    ∃ h₁, Visited visits ((disassembleVisit tools optimize t h).left tools)
      ((begun t h).run (listing t)).2 h₁ ∧ EndsFrom tools optimize t h h₁

end

variable {tools : Toolchain} {optimize : Bool} {t : Input} {h : Host}

/-! ## Refusals -/

theorem refusal_compile : tools.refusal t (compileVisit t h).request (compileVisit t h).found =
    match compileAnswer tools t h with
    | .error e => some e
    | .ok log => if log.verdict = .failed then some (.compileFailed t.displayName log) else none :=
  rfl

theorem refusal_package : tools.refusal t (packageVisit tools optimize t h).request
      (packageVisit tools optimize t h).found =
    match packageAnswer tools optimize t h with
    | .error e => some e
    | .ok () => none :=
  rfl

theorem refusal_disassemble : tools.refusal t (disassembleVisit tools optimize t h).request
      (disassembleVisit tools optimize t h).found =
    match disassembleAnswer tools optimize t h with
    | .error e => some e
    | .ok () => none :=
  rfl

theorem refusal_compile_none_iff :
    tools.refusal t (compileVisit t h).request (compileVisit t h).found = none ↔
      ∃ log, compileAnswer tools t h = .ok log ∧ mentionsError log.text = false := by
  rw [refusal_compile]
  cases compileAnswer tools t h with
  | error e => simp
  | ok log => simp [CompilerLog.verdict_eq_failed_iff]

theorem refusal_package_none_iff :
    tools.refusal t (packageVisit tools optimize t h).request
      (packageVisit tools optimize t h).found = none ↔ packageAnswer tools optimize t h = .ok () := by
  rw [refusal_package]
  cases packageAnswer tools optimize t h <;> simp

theorem refusal_disassemble_none_iff :
    tools.refusal t (disassembleVisit tools optimize t h).request
      (disassembleVisit tools optimize t h).found = none ↔
        disassembleAnswer tools optimize t h = .ok () := by
  rw [refusal_disassemble]
  cases disassembleAnswer tools optimize t h <;> simp

theorem package_ne_compile (tools : Toolchain) (optimize : Bool) (t : Input) (h : Host) :
    packageVisit tools optimize t h ≠ compileVisit t h := by
  simp [packageVisit, compileVisit]

theorem disassemble_ne_compile (tools : Toolchain) (optimize : Bool) (t : Input) (h : Host) :
    disassembleVisit tools optimize t h ≠ compileVisit t h := by
  simp [disassembleVisit, compileVisit]

theorem disassemble_ne_package (tools : Toolchain) (optimize : Bool) (t : Input) (h : Host) :
    disassembleVisit tools optimize t h ≠ packageVisit tools optimize t h := by
  simp [disassembleVisit, packageVisit]

theorem Occurs.refusal {visits : List Visit} {e : Failure}
    (he : Occurs tools optimize t h visits e) :
    ((begun t h).run (listing t)).1 = .error e ∨
      ∃ v ∈ visits, tools.refusal t v.request v.found = some e := by
  cases he with
  | manifest ht hm => exact Or.inl (listing_error_iff.2 ⟨_, ht, hm⟩)
  | compiler hv ha =>
    refine Or.inr ⟨_, hv, ?_⟩
    rw [refusal_compile, ha]
  | marker hv ha hmark =>
    refine Or.inr ⟨_, hv, ?_⟩
    rw [refusal_compile, ha]
    simp [CompilerLog.verdict_eq_failed_iff.2 hmark]
  | packager hv ha =>
    refine Or.inr ⟨_, hv, ?_⟩
    rw [refusal_package, ha]
  | disassembler hv ha =>
    refine Or.inr ⟨_, hv, ?_⟩
    rw [refusal_disassemble, ha]

/-- Where the disassembler was not content, something failed. -/
theorem exists_occurs {visits : List Visit}
    (hcompile : compileVisit t h ∈ visits ↔ ∃ m, ((begun t h).run (listing t)).1 = .ok m)
    (hpackage : packageVisit tools optimize t h ∈ visits ↔ compileVisit t h ∈ visits ∧
      ∃ log, compileAnswer tools t h = .ok log ∧ mentionsError log.text = false)
    (hdisassemble : disassembleVisit tools optimize t h ∈ visits ↔
      packageVisit tools optimize t h ∈ visits ∧ packageAnswer tools optimize t h = .ok ())
    (hnot : ¬ (disassembleVisit tools optimize t h ∈ visits ∧
      disassembleAnswer tools optimize t h = .ok ())) :
    ∃ e, Occurs tools optimize t h visits e := by
  by_cases hd : disassembleVisit tools optimize t h ∈ visits
  · cases ha : disassembleAnswer tools optimize t h with
    | error e => exact ⟨e, .disassembler hd ha⟩
    | ok u => exact absurd ⟨hd, ha⟩ hnot
  by_cases hp : packageVisit tools optimize t h ∈ visits
  · cases ha : packageAnswer tools optimize t h with
    | error e => exact ⟨e, .packager hp ha⟩
    | ok u => exact absurd (hdisassemble.2 ⟨hp, ha⟩) hd
  by_cases hc : compileVisit t h ∈ visits
  · cases ha : compileAnswer tools t h with
    | error e => exact ⟨e, .compiler hc ha⟩
    | ok log =>
      cases hm : mentionsError log.text with
      | true => exact ⟨_, .marker hc ha hm⟩
      | false => exact absurd (hpackage.2 ⟨hc, log, ha, hm⟩) hp
  · cases hl : ((begun t h).run (listing t)).1 with
    | error e =>
      obtain ⟨d, ht, hm⟩ := listing_error_iff.1 hl
      exact ⟨e, .manifest ht hm⟩
    | ok m => exact absurd (hcompile.2 ⟨m, hl⟩) hc

/-! ## The visits -/

section
variable (tools : Toolchain) (optimize : Bool) (t : Input) (h : Host)

/-- A course that went on after a visit exactly if its request was met. -/
structure Chained (c : Toolchain.Course) : Prop where
  order : c.visits <+:
    [compileVisit t h, packageVisit tools optimize t h, disassembleVisit tools optimize t h]
  compile : compileVisit t h ∈ c.visits
  package : packageVisit tools optimize t h ∈ c.visits ↔
    tools.refusal t (compileVisit t h).request (compileVisit t h).found = none
  disassemble : disassembleVisit tools optimize t h ∈ c.visits ↔
    packageVisit tools optimize t h ∈ c.visits ∧
      tools.refusal t (packageVisit tools optimize t h).request
        (packageVisit tools optimize t h).found = none
  stop : ∀ v ∈ c.visits, ∀ e, tools.refusal t v.request v.found = some e → c.stop = some e
  stop_none : c.stop = none ↔ disassembleVisit tools optimize t h ∈ c.visits ∧
    tools.refusal t (disassembleVisit tools optimize t h).request
      (disassembleVisit tools optimize t h).found = none
  files : c.files = (c.visits.getLast?.map (·.left tools)).getD (compileVisit t h).found
  last : disassembleVisit tools optimize t h ∈ c.visits →
    c.files = (disassembleVisit tools optimize t h).left tools

theorem course_step (v : Visit) (rest : List ToolRequest) :
    tools.course t (v.request :: rest) v.found =
      match tools.refusal t v.request v.found with
      | some e => ⟨[v], v.left tools, some e⟩
      | none =>
        let c := tools.course t rest (v.left tools)
        ⟨v :: c.visits, c.files, c.stop⟩ :=
  rfl

theorem course_eq : tools.course t (t.requests optimize) (compileVisit t h).found =
    match tools.refusal t (compileVisit t h).request (compileVisit t h).found,
      tools.refusal t (packageVisit tools optimize t h).request
        (packageVisit tools optimize t h).found,
      tools.refusal t (disassembleVisit tools optimize t h).request
        (disassembleVisit tools optimize t h).found with
    | some e, _, _ => ⟨[compileVisit t h], (compileVisit t h).left tools, some e⟩
    | none, some e, _ => ⟨[compileVisit t h, packageVisit tools optimize t h],
        (packageVisit tools optimize t h).left tools, some e⟩
    | none, none, stop => ⟨[compileVisit t h, packageVisit tools optimize t h,
        disassembleVisit tools optimize t h], (disassembleVisit tools optimize t h).left tools,
        stop⟩ := by
  have hlast := course_step tools t (disassembleVisit tools optimize t h) []
  have hmiddle := course_step tools t (packageVisit tools optimize t h)
    [(disassembleVisit tools optimize t h).request]
  have hfirst := course_step tools t (compileVisit t h)
    [(packageVisit tools optimize t h).request, (disassembleVisit tools optimize t h).request]
  change tools.course t _ ((packageVisit tools optimize t h).left tools) = _ at hlast
  change tools.course t _ ((compileVisit t h).left tools) = _ at hmiddle
  refine hfirst.trans ?_
  rw [hmiddle, hlast]
  cases tools.refusal t (compileVisit t h).request (compileVisit t h).found with
  | some e => rfl
  | none =>
    cases tools.refusal t (packageVisit tools optimize t h).request
        (packageVisit tools optimize t h).found with
    | some e => rfl
    | none =>
      cases tools.refusal t (disassembleVisit tools optimize t h).request
        (disassembleVisit tools optimize t h).found <;> rfl

theorem course_chained : Chained tools optimize t h
    (tools.course t (t.requests optimize) (compileVisit t h).found) := by
  have hcp := package_ne_compile tools optimize t h
  have hcd := disassemble_ne_compile tools optimize t h
  have hpd := disassemble_ne_package tools optimize t h
  rw [course_eq]
  cases hc : tools.refusal t (compileVisit t h).request (compileVisit t h).found with
  | some e =>
    refine { order := ⟨_, rfl⟩, compile := List.mem_singleton_self _, package := ?_,
             disassemble := ?_, stop := ?_, stop_none := ?_, files := rfl, last := ?_ }
    · simp [hc, hcp]
    · simp [hcd, hcp]
    · intro v hv e' he
      obtain rfl := List.mem_singleton.1 hv
      exact hc.symm.trans he
    · simp [hcd]
    · exact fun hv => absurd (List.mem_singleton.1 hv) hcd
  | none =>
    cases hp : tools.refusal t (packageVisit tools optimize t h).request
        (packageVisit tools optimize t h).found with
    | some e =>
      have hnot : disassembleVisit tools optimize t h ∉
          [compileVisit t h, packageVisit tools optimize t h] := by simp [hcd, hpd]
      refine { order := ⟨_, rfl⟩, compile := List.mem_cons_self, package := ?_,
               disassemble := ?_, stop := ?_, stop_none := ?_, files := rfl, last := ?_ }
      · simp [hc]
      · simp [hp, hcd, hpd]
      · intro v hv e' he
        rcases List.mem_pair.1 hv with rfl | rfl
        · cases hc.symm.trans he
        · exact hp.symm.trans he
      · simp [hcd, hpd]
      · exact fun hv => absurd hv hnot
    | none =>
      refine { order := List.prefix_refl _, compile := List.mem_cons_self, package := ?_,
               disassemble := ?_, stop := ?_, stop_none := ?_, files := rfl, last := fun _ => rfl }
      · simp [hc]
      · simp [hp]
      · intro v hv e' he
        simp only [List.mem_cons, List.not_mem_nil, or_false] at hv
        rcases hv with rfl | rfl | rfl
        · cases hc.symm.trans he
        · cases hp.symm.trans he
        · exact he
      · simp

end

theorem inOrder_of_error {e : Failure} (hl : ((begun t h).run (listing t)).1 = .error e) :
    InOrder tools optimize t h [] := by
  have hcourse := run_course tools optimize t h
  dsimp only at hcourse
  rw [hl] at hcourse
  obtain ⟨hout, habort, hvisit⟩ := hcourse
  have hnot : ¬ ∃ m, ((begun t h).run (listing t)).1 = .ok m := by simp [hl]
  refine ⟨?_, List.nil_prefix, ?_, by simp, by simp, by simp [hout], ?_, fun _ => hvisit, by simp⟩
  · rw [hvisit.calls, calls_listing]
  · rw [← listing_ok_iff]
    simp [hnot]
  · intro f
    constructor
    · intro hf
      obtain rfl := Except.error.inj (Prod.mk.inj (hout.symm.trans hf.1)).1
      obtain ⟨d, ht, hm⟩ := listing_error_iff.1 hl
      exact .manifest ht hm
    · intro hf
      rcases hf.refusal with hf | ⟨v, hv, _⟩
      · obtain rfl := Except.error.inj (hl.symm.trans hf)
        exact ⟨hout, habort⟩
      · cases hv

theorem inOrder_of_ok {m : Option Manifest} (hl : ((begun t h).run (listing t)).1 = .ok m) :
    InOrder tools optimize t h
      (tools.course t (t.requests optimize) (compileVisit t h).found).visits := by
  have hcourse := run_course tools optimize t h
  have hcalls := calls_run hl tools optimize
  have hchain := course_chained tools optimize t h
  have hfound : ((begun t h).run (listing t)).2.files = (compileVisit t h).found := rfl
  dsimp only at hcourse
  rw [hl] at hcourse
  rw [hfound] at hcourse hcalls
  generalize tools.course t (t.requests optimize) (compileVisit t h).found = c
    at hcourse hcalls hchain ⊢
  obtain ⟨h₁, hvisit, hstop⟩ := hcourse
  have hcompile : compileVisit t h ∈ c.visits ↔ ∃ m, ((begun t h).run (listing t)).1 = .ok m :=
    ⟨fun _ => ⟨m, hl⟩, fun _ => hchain.compile⟩
  have hpackage : packageVisit tools optimize t h ∈ c.visits ↔ compileVisit t h ∈ c.visits ∧
      ∃ log, compileAnswer tools t h = .ok log ∧ mentionsError log.text = false := by
    rw [hchain.package, refusal_compile_none_iff, and_iff_right hchain.compile]
  have hdisassemble := hchain.disassemble
  rw [refusal_package_none_iff] at hdisassemble
  have hended := hchain.stop_none
  rw [refusal_disassemble_none_iff] at hended
  have hstopped {e : Failure} (he : Occurs tools optimize t h c.visits e) : c.stop = some e := by
    rcases he.refusal with he | ⟨v, hv, he⟩
    · cases (hl.symm.trans he)
    · exact hchain.stop v hv e he
  cases hs : c.stop with
  | some e =>
    rw [hs] at hstop
    obtain ⟨hout, habort, hfinal⟩ := hstop
    have hnot : ¬ (disassembleVisit tools optimize t h ∈ c.visits ∧
        disassembleAnswer tools optimize t h = .ok ()) := by
      simp [← hended, hs]
    refine ⟨hcalls, hchain.order, hcompile.trans listing_ok_iff, hpackage, hdisassemble,
      by simp [hout, hnot], fun f => ⟨fun hf => ?_, fun hf => ?_⟩, fun _ => ?_,
      fun hv ha => absurd ⟨hv, ha⟩ hnot⟩
    · obtain ⟨f', hf'⟩ := exists_occurs hcompile hpackage hdisassemble hnot
      obtain rfl := Option.some.inj (hs.symm.trans (hstopped hf'))
      obtain rfl := Except.error.inj (Prod.mk.inj (hout.symm.trans hf.1)).1
      exact hf'
    · obtain rfl := Option.some.inj (hs.symm.trans (hstopped hf))
      exact ⟨hout, habort⟩
    · rw [← hchain.files, ← hvisit.files, ← List.append_nil c.visits]
      exact hvisit.trans hfinal
  | none =>
    rw [hs] at hstop
    obtain ⟨log, -, hout, hfinal⟩ := hstop
    refine ⟨hcalls, hchain.order, hcompile.trans listing_ok_iff, hpackage, hdisassemble,
      by simp [hout, ← hended, hs], fun f => ⟨fun hf => ?_, fun hf => ?_⟩,
      fun hnot => absurd (hended.1 hs) hnot, fun hv _ => ?_⟩
    · cases ((Prod.mk.inj (hout.symm.trans hf.1)).1)
    · cases (hs.symm.trans (hstopped hf))
    · exact ⟨h₁, hchain.last hv ▸ hvisit, ⟨_, hout, listing_isSome hl, rfl, rfl⟩, hfinal.files, rfl⟩

/-- The tool calls of a run are a prefix of compiling, packaging and disassembling, each made at most
once and only if all before it was met. -/
theorem run_inOrder (tools : Toolchain) (optimize : Bool) (t : Input) (h : Host) :
    ∃ visits, InOrder tools optimize t h visits := by
  cases hl : ((begun t h).run (listing t)).1 with
  | error e => exact ⟨[], inOrder_of_error hl⟩
  | ok m => exact ⟨_, inOrder_of_ok hl⟩

end Conversion
end SmaliBuild
