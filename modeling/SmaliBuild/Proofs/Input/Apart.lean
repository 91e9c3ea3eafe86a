import SmaliBuild.Proofs.Input.Places
import SmaliBuild.Proofs.Manifest.Frame
import SmaliBuild.Proofs.Sweep.Frame
/-!
# Inputs that are out of reach

An input is `Apart` if neither a sweep of its artifacts nor a new manifest can get at it or at the output,
whatever the tools leave around it.  Under a plain path, one that is made up of the names of the
directories around the input, this comes down to names: no artifact may be called like the input
(`apart_of_plain`, `not_apart_of_fileName`).
-/
namespace SmaliBuild
open FileSystem

variable {fs b : FileSystem} {dir l m d : Location} {t : Input} {n : Name} {e : Entry}

namespace Input

/-- A location is where the input is: that of the entry that its path names, or at or below the place
that it leads to. -/
def AtInput (fs : FileSystem) (dir : Location) (t : Input) (l : Location) : Prop :=
  fs.site? dir t.path = some l ∨ ∃ r, fs.locate dir true t.path = .ok r ∧ r <:+ l

/-- No leaf of the input or the output is within reach of a sweep of `b`. -/
def Clear (fs : FileSystem) (dir : Location) (t : Input) (b : FileSystem) : Prop :=
  ∀ q ∈ t.workspace.artifacts t.compiled, ∀ m, Sweep.Reaches b dir q m → b.IsLeaf m →
    ¬ AtInput fs dir t m ∧ ¬ AtSite b dir t.workspace.output m

/-- The sources can be listed, so that tools are called at all. -/
def Listable (fs : FileSystem) (dir : Location) (t : Input) : Prop :=
  t.isDirectory = true → Manifest.Replaceable dir t.workspace.manifest fs

/-- The input and the output are out of reach of a sweep now, and of one at the end of a run, with
whatever files the tools leave around the input.  A new manifest does not get into the input. -/
structure Apart (fs : FileSystem) (dir : Location) (t : Input) : Prop where
  now : Clear fs dir t fs
  later : Listable fs dir t → ∀ b, SameAt (AtInput fs dir t) fs b → Clear fs dir t b
  listed : t.isDirectory = true → ∀ l, fs.site? dir t.workspace.manifest = some l →
    AtInput fs dir t l → fs.get? l ≠ none

theorem AtInput.below (hl : AtInput fs dir t l) (hlm : l <:+ m)
    (hsame : SameAt (AtInput fs dir t) fs b) (he : b.get? m = some e) : AtInput fs dir t m := by
  rcases hl with hsite | ⟨r, hr, hrl⟩
  · by_cases hne : l = m
    · exact hne ▸ Or.inl hsite
    · have hdir : fs.get? l = some .directory := by
        rw [← hsame l (Or.inl hsite), get?_of_suffix hlm hne he]
      exact Or.inr ⟨l, locate_following (locate_of_site_directory hsite hdir) hdir, hlm⟩
  · exact Or.inr ⟨r, hr, hrl.trans hlm⟩

/-! ## Plain paths -/

/-- The path of the input is made up of the names of the directories around it and of its own, and it
is no link. -/
structure Plain (fs : FileSystem) (t : Input) (n : Name) (d : Location) : Prop where
  words : t.path.words = (n :: d).reverse.map (·.bytes)
  found : ∃ e, fs.get? (n :: d) = some e ∧ ∀ target, e ≠ .link target

namespace Plain

theorem words_concat (hp : t.Plain fs n d) : t.path.words = d.reverse.map (·.bytes) ++ [n.bytes] := by
  rw [hp.words, List.reverse_cons, List.map_append]
  rfl

variable (hs : t.Stands fs dir) (hp : t.Plain fs n d)
include hs hp

theorem fits {k : Name} (hk : k ∈ n :: d) : Fits k.bytes := by
  obtain ⟨l, e, hl, -⟩ := hs.found
  refine (locate_eq_ok_iff.1 hl).2.fits ?_
  rw [Path.steps_eq, hp.words]
  exact List.mem_append_left _ (List.mem_map_of_mem (List.mem_reverse.2 hk))

theorem leads : fs.Leads true linkLimit [] t.path.words (n :: d) := by
  obtain ⟨e, he, hlink⟩ := hp.found
  exact hp.words ▸ leads_names he hlink fun k hk => hp.fits hs hk

theorem leads_enclosing (hd : b.get? d = some .directory) :
    b.Leads true linkLimit [] (d.reverse.map (·.bytes)) d :=
  leads_names hd (by simp) fun k hk => hp.fits hs (List.mem_cons_of_mem n hk)

omit hs in
theorem enclosing (hsame : b.get? (n :: d) = fs.get? (n :: d)) : b.get? d = some .directory := by
  obtain ⟨e, he, -⟩ := hp.found
  exact get?_enclosing (hsame.trans he)

theorem eq_of_leads {r : Location} (hr : fs.Leads true linkLimit [] t.path.steps r) : r = n :: d := by
  rw [Path.steps_eq] at hr
  split at hr
  · exact (leads_append_dot.1 hr).1.unique (hp.leads hs)
  · rw [List.append_nil] at hr
    exact hr.unique (hp.leads hs)

theorem suffix_of_atInput (hl : AtInput fs dir t l) : n :: d <:+ l := by
  rcases hl with hsite | ⟨r, hr, hrl⟩
  · obtain ⟨-, before, d', n', rfl, hw, -, hbefore, -⟩ := site?_eq_some_iff.1 hsite
    obtain ⟨rfl, hlast⟩ := List.append_inj' (hp.words_concat.symm.trans hw) rfl
    obtain rfl := Name.eq_of_bytes (List.singleton_inj.1 hlast)
    rw [hs.start] at hbefore
    rw [hbefore.unique (hp.leads_enclosing hs (hp.enclosing rfl))]
  · obtain ⟨-, hleads⟩ := locate_eq_ok_iff.1 hr
    rw [hs.start] at hleads
    exact hp.eq_of_leads hs hleads ▸ hrl

theorem atInput : AtInput fs dir t (n :: d) := by
  obtain ⟨l, e, hl, -⟩ := hs.found
  obtain ⟨-, hleads⟩ := locate_eq_ok_iff.1 hl
  rw [hs.start] at hleads
  obtain rfl := hp.eq_of_leads hs hleads
  exact Or.inr ⟨_, hl, List.suffix_refl _⟩

theorem fileName_of_words {q : Path} {s : Path.Segment}
    (hwords : q.words = d.reverse.map (·.bytes) ++ [s]) (hdot : s ≠ [dot]) :
    q.fileName = if s = Path.up then none else some s := by
  refine Path.fileName_eq ?_ hwords
  rw [hwords, List.mem_append, List.mem_singleton]
  rintro (hbefore | hlast)
  · exact hs.regular.plain (hp.words_concat ▸ List.mem_append_left _ hbefore)
  · exact hdot hlast.symm

theorem fileName : t.path.fileName = some n.bytes := by
  rw [hp.fileName_of_words hs hp.words_concat n.bytes_ne_dot, if_neg n.bytes_ne_up]

end Plain

/-- No artifact is called like the input, and each has a name at all. -/
def Distinct (t : Input) : Prop :=
  ∀ q ∈ t.workspace.artifacts t.compiled, q.fileName ≠ none ∧ q.fileName ≠ t.path.fileName

theorem eq_of_suffix {k j : Name} (hk : k :: d <:+ m) (hj : j :: d <:+ m) : k = j := by
  have hsuffix := List.suffix_of_suffix_length_le hk hj (Nat.le_refl _)
  exact (List.cons.inj (hsuffix.eq_of_length rfl)).1

/-- An input under a plain path is out of reach unless an artifact is called like it, or has no name. -/
theorem apart_of_plain (hs : t.Stands fs dir) (hp : t.Plain fs n d) (hdistinct : t.Distinct) :
    Apart fs dir t := by
  have hbeside {b : FileSystem} (hsame : b.get? (n :: d) = fs.get? (n :: d)) :=
    hs.names_beside hp.words_concat n.bytes_ne_up (hp.leads_enclosing hs (hp.enclosing hsame))
      (hp.enclosing hsame)
  have hname {q : Path} (hq : q ∈ t.workspace.artifacts t.compiled) {s : Path.Segment}
      (hwords : q.words = d.reverse.map (·.bytes) ++ [s]) (hdot : s ≠ [dot]) :
      s ≠ Path.up ∧ s ≠ n.bytes := by
    obtain ⟨hsome, hne⟩ := hdistinct q hq
    rw [hp.fileName_of_words hs hwords hdot] at hsome hne
    rw [hp.fileName hs] at hne
    have hup : s ≠ Path.up := fun hup => hsome (if_pos hup)
    rw [if_neg hup] at hne
    exact ⟨hup, fun heq => hne (congrArg some heq)⟩
  have hclear {b : FileSystem} (hsame : b.get? (n :: d) = fs.get? (n :: d)) : Clear fs dir t b := by
    intro q hq m hm _
    obtain ⟨houtput, hartifacts⟩ := hbeside hsame
    obtain ⟨s, hwords, hnames, hdot, hs'⟩ := hartifacts q hq
    obtain ⟨hup, hne⟩ := hname hq hwords hdot
    obtain ⟨r, hr, hrm⟩ := hm.located
    rcases hnames.cases_of_locate hr with ⟨rfl, -⟩ | ⟨rfl, -⟩ | ⟨k, rfl, -, rfl⟩
    · exact absurd rfl hdot
    · exact absurd rfl hup
    · refine ⟨fun hl => hne ?_, ?_⟩
      · rw [eq_of_suffix hrm (hp.suffix_of_atInput hs hl)]
      · rintro ⟨o, ho, hom⟩
        obtain ⟨-, j, hj, -, rfl⟩ := houtput.site?_eq_some_iff.1 ho
        exact hs' (hj ▸ congrArg Name.bytes (eq_of_suffix hrm hom))
  refine ⟨hclear rfl, fun _ b hsame => hclear (hsame _ (hp.atInput hs)), fun _ l hsite hl => ?_⟩
  have hmanifest : t.workspace.manifest ∈ t.workspace.artifacts t.compiled := List.mem_cons_self
  obtain ⟨s, hwords, hnames, hdot, -⟩ := (hbeside rfl).2 _ hmanifest
  obtain ⟨-, k, rfl, -, rfl⟩ := hnames.site?_eq_some_iff.1 hsite
  have hsuffix := eq_of_suffix (hp.suffix_of_atInput hs hl) (List.suffix_refl _)
  exact absurd (congrArg Name.bytes hsuffix.symm) (hname hmanifest hwords hdot).2

/-- A source file under a plain path is within reach if an artifact is called like it. -/
theorem not_apart_of_fileName (hs : t.Stands fs dir) (hp : t.Plain fs n d)
    (hfile : t.isDirectory = false) {q : Path} (hq : q ∈ t.workspace.artifacts t.compiled)
    (hcheck : q.check = .ok ()) (hname : q.fileName = t.path.fileName) : ¬ Apart fs dir t := by
  intro hapart
  obtain ⟨-, hartifacts⟩ := hs.names_beside hp.words_concat n.bytes_ne_up
    (hp.leads_enclosing hs (hp.enclosing rfl)) (hp.enclosing rfl)
  obtain ⟨s, hwords, hnames, hdot, -⟩ := hartifacts q hq
  rw [hp.fileName_of_words hs hwords hdot, hp.fileName hs] at hname
  split at hname
  · cases hname
  obtain rfl := Option.some.inj hname
  obtain ⟨l, e, hl, he, hdir⟩ := hs.found
  obtain ⟨-, hleads⟩ := locate_eq_ok_iff.1 hl
  rw [hs.start] at hleads
  obtain rfl := hp.eq_of_leads hs hleads
  have hsite : fs.site? dir q = some (n :: d) :=
    hnames.site?_eq_some_iff.2 ⟨hcheck, n, rfl, hp.fits hs List.mem_cons_self, rfl⟩
  have hlocate := locate_of_site hsite hnames.noSlash
  rw [he, Option.isSome_some, if_pos rfl] at hlocate
  have hleaf : fs.IsLeaf (n :: d) := by
    refine ⟨e, he, ?_⟩
    rintro rfl
    cases hdir.trans hfile
  exact (hapart.now q hq _ (.here hsite hlocate) hleaf).1 (hp.atInput hs)

end Input
end SmaliBuild
