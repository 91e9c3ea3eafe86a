import SmaliBuild.Proofs.Input.Places
import SmaliBuild.Proofs.Sweep.Account
import SmaliBuild.Report
/-!
# What a preview of a sweep is worth

A preview looks at all targets in the files as they are, while a sweep looks at each one when the
targets before it are gone.  Removing entries never makes a path lead somewhere where it led nowhere
(`FileSystem.lstat_within`), so a sweep deletes no target that the preview does not list.  It deletes
all of them if it meets no trouble and the targets stay within its reach: their places are apart, since
none is called like another, so only the loss of their directory can hide one.
-/
namespace SmaliBuild.FileSystem
variable {fs a b : FileSystem} {dir l : Location} {p : Path} {e : Entry}

theorem lstat_absent_of_within (hab : a.Within b) (hb : b.lstat dir p = .error (.os .noEntry)) :
    a.lstat dir p = .error (.os .noEntry) := by
  rcases lstat_within hab dir p with h | ⟨x, hx, hx'⟩ | ⟨e, e', -, he'⟩
  · exact h
  · rw [hx, Except.error.inj (hx'.symm.trans hb)]
  · cases he'.symm.trans hb

theorem lstat_isOk_iff : (fs.lstat dir p).isOk = true ↔ ∃ l, fs.locate dir false p = .ok l := by
  constructor
  · intro h
    cases he : fs.lstat dir p with
    | error x =>
      rw [he] at h
      cases h
    | ok e =>
      obtain ⟨l, hl, -⟩ := lstat_eq_ok_iff.1 he
      exact ⟨l, hl⟩
  · rintro ⟨l, hl⟩
    obtain ⟨e, he⟩ := Option.isSome_iff_exists.1 (isSome_of_locate hl)
    rw [lstat_eq_ok_iff.2 ⟨l, hl, he⟩]
    rfl

theorem lstat_absent_of_gone (hab : a.Within b) (hl : b.locate dir false p = .ok l)
    (hgone : a.get? l = none) : a.lstat dir p = .error (.os .noEntry) := by
  rcases locate_within hab dir false p with h | h
  · rw [hl] at h
    rw [lstat_of_locate h, hgone]
  · exact lstat_of_locate_error h

end SmaliBuild.FileSystem

namespace SmaliBuild.Sweep
open FileSystem
variable {fs : FileSystem} {dir l : Location} {p : Path} {ps : List Path} {h : Host} {s : Sweep}

/-! ## Previews -/

theorem steady_existing (ps : List Path) (h : Host) :
    (h.run (existing ps)).2.files = h.files := by
  induction ps generalizing h with
  | nil => rfl
  | cons p ps ih =>
    rw [existing, Host.run_bind, Host.run_lstat_snd]
    cases (h.run (Host.lstat p)).1 with
    | error x => exact ih h.counted
    | ok e => exact ih h.counted

theorem existing_nil (habsent : ∀ p ∈ ps, h.files.lstat h.directory p = .error (.os .noEntry)) :
    (h.run (existing ps)).1 = [] := by
  induction ps generalizing h with
  | nil => rfl
  | cons p ps ih =>
    rw [existing, Host.run_bind, Host.run_lstat_snd]
    cases hlook : (h.run (Host.lstat p)).1 with
    | error x => exact ih (h := h.counted) fun q hq => habsent q (List.mem_cons_of_mem p hq)
    | ok e => cases (Host.run_look_ok hlook).symm.trans (habsent p List.mem_cons_self)

theorem existing_eq (ps : List Path) (hsound : ∀ n, h.faults n = none) :
    (h.run (existing ps)).1 = ps.filter fun p => (h.files.lstat h.directory p).isOk := by
  induction ps generalizing h with
  | nil => rfl
  | cons p ps ih =>
    rw [existing, Host.run_bind, Host.run_lstat_snd, Host.run_lstat_fst (hsound h.made),
      List.filter_cons]
    cases h.files.lstat h.directory p with
    | error x => exact ih (h := h.counted) hsound
    | ok e => exact congrArg (p :: ·) (ih (h := h.counted) hsound)

/-! ## Sweeps -/

/-- A sweep puts on its list a part of the targets that could be seen in `fs`, in their order. -/
theorem deleted_sublist (ps : List Path) (hwithin : h.files.Within fs) :
    ∃ gone, (h.run (removeTargets ps s)).1.deleted = s.deleted ++ gone ∧
      gone.Sublist (ps.filter fun p => (fs.lstat h.directory p).isOk) := by
  induction ps generalizing h s with
  | nil => exact ⟨[], by simp [removeTargets], List.Sublist.refl _⟩
  | cons p ps ih =>
    have hfirst := removeTarget_goes p s h
    obtain ⟨gone, hdeleted, hsub⟩ := ih (s := (h.run (removeTarget p s)).1)
      (hfirst.trims.within.trans hwithin)
    rw [hfirst.steady.directory] at hsub
    rw [removeTargets, Host.run_bind, hdeleted, List.filter_cons]
    have hskipped : gone.Sublist (if (fs.lstat h.directory p).isOk then
        p :: ps.filter fun p => (fs.lstat h.directory p).isOk
        else ps.filter fun p => (fs.lstat h.directory p).isOk) := by
      split
      · exact hsub.cons p
      · exact hsub
    rcases removeTarget_cases p s h with ⟨-, heq⟩ | ⟨heq, -⟩ | ⟨heq, l, hl, -⟩
    · exact ⟨gone, by rw [heq], hskipped⟩
    · exact ⟨gone, by rw [heq], hskipped⟩
    · have hseen := lstat_isOk_iff.2 ⟨l, locate_mono hwithin hl⟩
      refine ⟨p :: gone, by rw [heq, List.append_assoc]; rfl, ?_⟩
      rw [if_pos hseen]
      exact hsub.cons_cons p

theorem lstat_removeTargets (herrors : (h.run (removeTargets ps s)).1.errors = []) (hp : p ∈ ps) :
    (h.run (removeTargets ps s)).2.files.lstat h.directory p = .error (.os .noEntry) := by
  obtain ⟨s₁, h₁, hbefore, hafter⟩ := exists_turn s h hp
  rw [← hbefore.steady.directory]
  refine lstat_absent_of_within hafter.trims.within ?_
  have hswept := (removeTarget_goes p s₁ h₁).trims.within
  have hquiet := List.prefix_nil.1 (herrors ▸ hafter.errors)
  rcases removeTarget_cases p s₁ h₁ with ⟨habsent, -⟩ | ⟨-, hfailed⟩ | ⟨-, l, hl, hgone⟩
  · exact lstat_absent_of_within hswept habsent
  · exact absurd hquiet hfailed
  · exact lstat_absent_of_gone hswept hl hgone

theorem removeTarget_absent (habsent : h.files.lstat h.directory p = .error (.os .noEntry)) :
    (h.run (removeTarget p s)).1.deleted = s.deleted ∧
      (h.run (removeTarget p s)).2.files = h.files ∧
      (h.faults h.made = none → (h.run (removeTarget p s)).1.errors = s.errors) := by
  rcases run_removeTarget_cases p s h with ⟨x, journal, -, -, -, hrun⟩ |
    ⟨x, hlook, hpresent, hrun⟩ | ⟨e, -, -, -, -, hlook, -⟩
  · rw [hrun]
    exact ⟨rfl, rfl, fun _ => rfl⟩
  · rw [hrun]
    refine ⟨rfl, rfl, fun hf => absurd ?_ hpresent⟩
    rw [Host.run_lstat_fst hf] at hlook
    rw [Except.error.inj (hlook.symm.trans habsent)]
    rfl
  · cases (Host.run_look_ok hlook).symm.trans habsent

theorem removeTargets_absent
    (habsent : ∀ p ∈ ps, h.files.lstat h.directory p = .error (.os .noEntry)) :
    (h.run (removeTargets ps s)).1.deleted = s.deleted ∧
      (h.run (removeTargets ps s)).2.files = h.files ∧
      ((∀ n, h.faults n = none) → (h.run (removeTargets ps s)).1.errors = s.errors) := by
  induction ps generalizing h s with
  | nil => exact ⟨rfl, rfl, fun _ => rfl⟩
  | cons p ps ih =>
    have hsteady := (removeTarget_goes p s h).steady
    obtain ⟨hdeleted, hfiles, herrors⟩ := removeTarget_absent (s := s) (habsent p List.mem_cons_self)
    obtain ⟨hdeleted', hfiles', herrors'⟩ := ih (h := (h.run (removeTarget p s)).2)
      (s := (h.run (removeTarget p s)).1) fun q hq => by
        rw [hfiles, hsteady.directory]
        exact habsent q (List.mem_cons_of_mem p hq)
    rw [removeTargets, Host.run_bind]
    refine ⟨hdeleted'.trans hdeleted, hfiles'.trans hfiles, fun hsound => ?_⟩
    exact (herrors' fun n => hsteady.faults ▸ hsound n).trans (herrors (hsound h.made))

/-- A sweep without errors puts all targets on its list that could be seen in `fs`, if their places are
apart and its paths keep leading there. -/
theorem deleted_eq (hwithin : h.files.Within fs)
    (herrors : (h.run (removeTargets ps s)).1.errors = [])
    (hapart : ps.Pairwise fun q p => ∀ k r, fs.locate h.directory false q = .ok k →
      fs.locate h.directory false p = .ok r → ¬ k <:+ r)
    (hthere : ∀ p ∈ ps, ∀ r, fs.locate h.directory false p = .ok r → (h.files.get? r).isSome)
    (hkeeps : ∀ p ∈ ps, ∀ r, fs.locate h.directory false p = .ok r → ∀ a : FileSystem,
      (h.run (removeTargets ps s)).2.files.Within a → (a.get? r).isSome →
        a.locate h.directory false p = .ok r) :
    (h.run (removeTargets ps s)).1.deleted =
      s.deleted ++ ps.filter fun p => (fs.lstat h.directory p).isOk := by
  induction ps generalizing h s with
  | nil => simp [removeTargets]
  | cons q ps ih =>
    have hfirst := removeTarget_goes q s h
    have hrest := removeTargets_goes ps (h.run (removeTarget q s)).1 (h.run (removeTarget q s)).2
    obtain ⟨hq, hps⟩ := List.pairwise_cons.1 hapart
    rw [removeTargets, Host.run_bind] at herrors hkeeps ⊢
    -- the first target takes nothing away from the places of the others
    have hthere' : ∀ p ∈ ps, ∀ r, fs.locate h.directory false p = .ok r →
        ((h.run (removeTarget q s)).2.files.get? r).isSome := by
      intro p hp r hr
      rcases hfirst.trims r with heq | ⟨hreaches, -⟩
      · rw [heq]
        exact hthere p (List.mem_cons_of_mem q hp) r hr
      · obtain ⟨k, hk, hkr⟩ := hreaches.located
        exact absurd hkr (hq p hp k r (locate_mono hwithin hk) hr)
    rw [← hfirst.steady.directory] at hps hthere'
    have hlater := ih (h := (h.run (removeTarget q s)).2) (s := (h.run (removeTarget q s)).1)
      (hfirst.trims.within.trans hwithin) herrors hps hthere' fun p hp r hr => by
        rw [hfirst.steady.directory] at hr ⊢
        exact hkeeps p (List.mem_cons_of_mem q hp) r hr
    rw [hfirst.steady.directory] at hlater
    have hquiet := List.prefix_nil.1 (herrors ▸ hrest.errors)
    rw [hlater, List.filter_cons]
    rcases removeTarget_cases q s h with ⟨habsent, heq⟩ | ⟨-, hfailed⟩ | ⟨heq, l, hl, -⟩
    · rw [if_neg, heq]
      intro hseen
      obtain ⟨r, hr⟩ := lstat_isOk_iff.1 hseen
      have hlocate := hkeeps q List.mem_cons_self r hr h.files
        (hrest.trims.within.trans hfirst.trims.within) (hthere q List.mem_cons_self r hr)
      obtain ⟨e, he⟩ := Option.isSome_iff_exists.1 (hthere q List.mem_cons_self r hr)
      cases habsent.symm.trans (lstat_eq_ok_iff.2 ⟨r, hlocate, he⟩)
    · exact absurd hquiet hfailed
    · rw [if_pos (lstat_isOk_iff.2 ⟨l, locate_mono hwithin hl⟩), heq, List.append_assoc]
      rfl

end SmaliBuild.Sweep

namespace SmaliBuild
open FileSystem

namespace CleanReport

theorem run_perform_dry (t : Input) (h : Host) : h.run (perform t true) =
    (⟨true, (h.run (Sweep.pending t.workspace t.compiled)).1, []⟩,
      (h.run (Sweep.pending t.workspace t.compiled)).2) := by
  rw [perform, if_pos rfl, Host.run_bind]
  rfl

theorem run_perform (t : Input) (h : Host) : h.run (perform t false) =
    (⟨false, (h.run (Sweep.run t.workspace t.compiled)).1.deleted,
      (h.run (Sweep.run t.workspace t.compiled)).1.errors.map (·.sweepWarning)⟩,
      (h.run (Sweep.run t.workspace t.compiled)).2) := by
  rw [perform, if_neg Bool.false_ne_true, Host.run_bind]
  rfl

/-- A preview changes nothing, and a sweep deletes a part of what it lists, in the same order.  After a
sweep without warnings there is nothing left to list or to delete; and if the directory of the
conversion can still be found then, the sweep deleted all that the preview listed. -/
theorem perform_agrees {typed : Path} {t : Input} {h₀ h : Host}
    (hok : h₀.run (Input.resolve typed) = (.ok t, h)) :
    let dry := (Host.sound h.files h.directory).run (perform t true)
    let real := h.run (perform t false)
    (h.run (perform t true)).2.files = h.files ∧
      real.1.deleted.Sublist dry.1.deleted ∧
      (real.1.warnings = [] →
        (∀ k : Host, k.files = real.2.files → k.directory = real.2.directory →
          (k.run (perform t true)).1.deleted = [] ∧
            (k.run (perform t false)).1.deleted = [] ∧
            (k.run (perform t false)).2.files = k.files ∧
            ((∀ n, k.faults n = none) → (k.run (perform t false)).1.warnings = [])) ∧
        ∀ e, real.2.files.stat real.2.directory t.workspace.directory = .ok e →
          real.1.deleted = dry.1.deleted) := by
  obtain ⟨rfl, hs, -⟩ := Input.resolve_ok hok
  have hs : t.Stands h₀.counted.files h₀.counted.directory := hs
  generalize h₀.counted = h at hs
  have hlisted := Sweep.existing_eq (h := Host.sound h.files h.directory)
    (t.workspace.artifacts t.compiled) fun _ => rfl
  have hgoes := Sweep.run_goes t.workspace t.compiled h
  dsimp only
  rw [run_perform, run_perform_dry, run_perform_dry, Sweep.pending, hlisted]
  refine ⟨Sweep.steady_existing _ _, ?_, fun hquiet => ?_⟩
  · obtain ⟨gone, hdeleted, hsub⟩ := Sweep.deleted_sublist (s := .empty)
      (t.workspace.artifacts t.compiled) (Within.refl h.files)
    rw [Sweep.run, hdeleted]
    exact hsub
  · have herrors := List.map_eq_nil_iff.1 hquiet
    refine ⟨fun k hfiles hdir => ?_, fun e he => ?_⟩
    · have habsent : ∀ p ∈ t.workspace.artifacts t.compiled,
          k.files.lstat k.directory p = .error (.os .noEntry) := by
        intro p hp
        rw [hfiles, hdir, hgoes.steady.directory]
        exact Sweep.lstat_removeTargets herrors hp
      obtain ⟨hdeleted, hsame, hwarnings⟩ := Sweep.removeTargets_absent (s := .empty) habsent
      refine ⟨Sweep.existing_nil habsent, hdeleted, hsame, fun hsound => ?_⟩
      rw [run_perform, Sweep.run, hwarnings hsound]
      rfl
    · rw [hgoes.steady.directory] at he
      exact Sweep.deleted_eq (s := .empty) (Within.refl h.files) herrors hs.pairwise_artifacts
        (fun p _ r hr => isSome_of_locate hr) fun p hp r hr a ha hsome =>
          hs.locate_artifact hgoes.trims.within he hp hr ha hsome

/-- A source file with its class file, and a link under the name of a manifest. -/
def builtFiles : FileSystem :=
  .flat [(Sweep.crossedDirectory, .directory), (⟨.ofString "Main.java", by decide⟩, .file [] false),
    (⟨.ofString "Main.class", by decide⟩, .file [] false),
    (Sweep.crossedManifest, .link ⟨Sweep.crossedDirectory.bytes⟩)] (by decide)

def builtInput : Path := .ofString "/Main.java"

theorem resolve_builtInput : (Host.sound builtFiles []).run (Input.resolve builtInput) =
    (.ok (.sourceFile builtInput), (Host.sound builtFiles []).counted) := by
  have hclass : builtInput.compiledFile = .ofString "/Main.class" := by cbv
  have hstat : ((Host.sound builtFiles []).run (Host.stat builtInput)).1 = .ok (.file [] false) := by
    cbv
  exact Input.run_resolve_file (by cbv) (by cbv) hstat (hclass ▸ by decide)

theorem perform_agrees_builtInput :
    let h := (Host.sound builtFiles []).counted
    let t := Input.sourceFile builtInput
    let dry := (Host.sound h.files h.directory).run (perform t true)
    let real := h.run (perform t false)
    (Host.sound builtFiles []).run (Input.resolve builtInput) = (.ok t, h) ∧
      real.1.warnings = [] ∧
      real.2.files.stat real.2.directory t.workspace.directory = .ok .directory ∧
      real.1.deleted = [t.workspace.manifest, t.compiled] ∧
      dry.1.deleted = real.1.deleted ∧
      (real.2.run (perform t false)).2.files = real.2.files := by
  have hwarnings : ((Host.sound builtFiles []).counted.run
      (perform (.sourceFile builtInput) false)).1.warnings = [] := by cbv
  have hdirectory : ((Host.sound builtFiles []).counted.run
      (perform (.sourceFile builtInput) false)).2.files.stat
        ((Host.sound builtFiles []).counted.run
          (perform (.sourceFile builtInput) false)).2.directory
        (Input.sourceFile builtInput).workspace.directory = .ok .directory := by cbv
  obtain ⟨-, -, hquiet⟩ := perform_agrees resolve_builtInput
  obtain ⟨hagain, hall⟩ := hquiet hwarnings
  refine ⟨resolve_builtInput, hwarnings, hdirectory, by cbv, (hall _ hdirectory).symm, ?_⟩
  exact (hagain _ rfl rfl).2.2.1

end CleanReport
end SmaliBuild
