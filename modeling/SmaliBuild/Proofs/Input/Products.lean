import SmaliBuild.Proofs.Files.Below
import SmaliBuild.Proofs.Input.Sibling
/-!
# What a conversion makes next to a source directory

The manifest, the bundle, the class directory and the output of a source directory whose path ends in a
name are entries of one directory, and so is the source directory itself (`Beside`).  A path below the
source directory leads to one of them only over a link (`Beside.overLink_of_own`).
-/
namespace SmaliBuild.Input
open FileSystem
variable {fs b : FileSystem} {dir l d k r : Location} {t : Input} {p q e : Path} {n s : Name}

def products (t : Input) : List Path :=
  [t.workspace.manifest, t.workspace.bundle, t.compiled, t.workspace.output]

def spots (fs : FileSystem) (dir : Location) (t : Input) : List Location :=
  t.products.filterMap (fs.site? dir)

/-- The place of a path is that of the entry that it names, or what it leads to. -/
def IsPlace (fs : FileSystem) (dir : Location) (q : Path) (k : Location) : Prop :=
  fs.site? dir q = some k ∨ fs.locate dir true q = .ok k

/-- A location is the place of the product at `q`, or below that of the class directory or the output. -/
def IsOf (fs : FileSystem) (dir : Location) (t : Input) (q : Path) (r : Location) : Prop :=
  ∃ k, IsPlace fs dir q k ∧ (k = r ∨ (q = t.compiled ∨ q = t.workspace.output) ∧ k <:+ r)

def Own (fs : FileSystem) (dir : Location) (t : Input) (r : Location) : Prop :=
  ∃ q ∈ t.products, IsOf fs dir t q r

/-- The input is the entry `s` of the directory at `d`; its products have names of their own there. -/
structure Beside (fs : FileSystem) (dir : Location) (t : Input) (s : Name) (d : Location) : Prop where
  enclosing : fs.get? d = some .directory
  site : fs.site? dir t.path = some (s :: d)
  names : ∀ q ∈ t.products, ∃ n : Name, Names fs q d n.bytes
  compiled : ∀ n : Name, Names fs t.compiled d n.bytes → n ≠ s
  output : Names fs t.workspace.output d (OsString.ofString outputName)

theorem names_unique {s₁ s₂ : Path.Segment} (h₁ : Names fs q d s₁) (h₂ : Names fs q d s₂) : s₁ = s₂ := by
  obtain ⟨before₁, hw₁, -⟩ := h₁.leads
  obtain ⟨before₂, hw₂, -⟩ := h₂.leads
  exact List.singleton_inj.1 (List.append_inj' (hw₁.symm.trans hw₂) rfl).2

theorem exists_beside (hs : (sourceDirectory p).Stands fs dir) (hnamed : p.fileName ≠ none) :
    ∃ s d, p.fileName = some s.bytes ∧ Beside fs dir (sourceDirectory p) s d := by
  obtain ⟨before, s, name, hw, hup, hwords, hother⟩ := exists_name_of_directory hs hnamed
  obtain ⟨d, hleads, hd⟩ := hs.leads_before hw
  obtain ⟨habs, hslash, -⟩ := hs.words_compiled
  have hplain : s ≠ [dot] := fun hdot => hs.regular.plain (hw ▸ hdot ▸ List.mem_concat_self)
  have hproper : isProperName s = true :=
    isProperName_of_word (p := p) (hw ▸ List.mem_concat_self) hplain hup (nul_notMem_last hs hw)
  have hdirectory := (hs.directory_words hw).1
  obtain ⟨hmanifest, hbundle, houtput, -⟩ := hs.names_of_leads (hdirectory.symm ▸ hleads) hd
  have hcompiled : Names fs (sourceDirectory p).compiled d name.bytes :=
    ⟨habs, hslash, ⟨before, hwords, hleads⟩, hd⟩
  have hfileName := Path.fileName_eq hs.regular.plain hw
  rw [if_neg hup] at hfileName
  refine ⟨⟨s, hproper⟩, d, hfileName, hd, ?_, ?_, ?_, houtput⟩
  · obtain ⟨r, x, hr, -⟩ := hs.found
    obtain ⟨hc, hleads'⟩ := locate_eq_ok_iff.1 hr
    have hfits : Fits s := hleads'.fits (n := ⟨s, hproper⟩) (by
      rw [Path.steps_eq]
      exact List.mem_append_left _ (hw ▸ List.mem_concat_self))
    exact site?_eq_some_iff.2 ⟨hc, before, d, ⟨s, hproper⟩, rfl, hw, hfits, hs.start ▸ hleads, hd⟩
  · intro q hq
    simp only [products, List.mem_cons, List.not_mem_nil, or_false] at hq
    rcases hq with rfl | rfl | rfl | rfl
    · exact ⟨⟨OsString.ofString manifestName, by decide⟩, hmanifest⟩
    · exact ⟨⟨OsString.ofString bundleName, by decide⟩, hbundle⟩
    · exact ⟨name, hcompiled⟩
    · exact ⟨⟨OsString.ofString outputName, by decide⟩, houtput⟩
  · rintro n hn rfl
    exact hother (names_unique hcompiled hn)

theorem IsPlace.eq (hq : Names fs q d n.bytes) (hk : IsPlace fs dir q k) :
    fs.site? dir q = some (n :: d) ∧
      (fs.IsLink dir q ∧ fs.locate dir true q = .ok k ∨ k = n :: d) := by
  rcases hk with hk | hk
  · obtain ⟨hc, n', hn, hfits, rfl⟩ := hq.site?_eq_some_iff.1 hk
    obtain rfl := Name.eq_of_bytes hn
    exact ⟨hk, Or.inr rfl⟩
  · obtain ⟨hc, hleads⟩ := locate_eq_ok_iff.1 hk
    obtain ⟨before, hw, -⟩ := hq.leads
    have hfits : Fits n.bytes := hleads.fits (by
      rw [Path.steps_eq]
      exact List.mem_append_left _ (hw ▸ List.mem_concat_self))
    have hsite : fs.site? dir q = some (n :: d) := hq.site?_eq_some_iff.2 ⟨hc, n, rfl, hfits, rfl⟩
    refine ⟨hsite, ?_⟩
    by_cases hlink : ∃ target, fs.get? (n :: d) = some (.link target)
    · obtain ⟨target, ht⟩ := hlink
      exact Or.inl ⟨⟨_, target, hsite, ht⟩, hk⟩
    · exact Or.inr (eq_site_of_locate hsite (fun target ht => hlink ⟨target, ht⟩) hk)

theorem exists_check_error (hq : Names fs q d n.bytes) (hfits : Fits n.bytes)
    (hnone : fs.site? dir q = none) : ∃ e, q.check = .error e := by
  cases hc : q.check with
  | error e => exact ⟨e, rfl⟩
  | ok u =>
    have hsome : fs.site? dir q = some (n :: d) := hq.site?_eq_some_iff.2 ⟨hc, n, rfl, hfits, rfl⟩
    cases hnone.symm.trans hsome

/-- What is there besides the products. -/
def bare (fs : FileSystem) (dir : Location) (t : Input) : FileSystem := fs.without (spots fs dir t)

theorem mem_spots : k ∈ spots fs dir t ↔ ∃ q ∈ t.products, fs.site? dir q = some k :=
  List.mem_filterMap

theorem nil_notMem_spots (fs : FileSystem) (dir : Location) (t : Input) : [] ∉ spots fs dir t := by
  intro hnil
  obtain ⟨q, -, hsite⟩ := mem_spots.1 hnil
  exact site?_ne_nil hsite rfl

theorem Own.mono (hown : Own fs dir t r) (hwithin : fs.Within b) : Own b dir t r := by
  obtain ⟨q, hq, k, hk, hplace⟩ := hown
  exact ⟨q, hq, k, hk.imp (site?_mono hwithin) (locate_mono hwithin), hplace⟩

/-- The path `e`, which leads to `r`, leads to a product over a link. -/
inductive OverLink (fs : FileSystem) (dir : Location) (t : Input) (e : Path) (r : Location) : Prop
  /-- The link is on the path, at or below the input, and leads to a product, into it, or to a
  directory around it. -/
  | inside {js ks : List Name} {x k : Location} : e = (t.path.below ks).below js →
      fs.IsLink dir (t.path.below ks) → fs.locate dir true (t.path.below ks) = .ok x →
      k ∈ spots fs dir t → x <:+ k ∨ k <:+ x → OverLink fs dir t e r
  /-- The link has the name of a product and leads to where the path leads, or around it. -/
  | product {q : Path} {k : Location} : q ∈ t.products → fs.IsLink dir q →
      fs.locate dir true q = .ok k → k <:+ r → OverLink fs dir t e r

namespace Beside

variable (hb : Beside fs dir t s d)
include hb

theorem eq_of_locate (hlink : ¬ fs.IsLink dir t.path) (hr : fs.locate dir true t.path = .ok r) :
    r = s :: d :=
  eq_site_of_locate hb.site (fun target ht => hlink ⟨_, target, hb.site, ht⟩) hr

/-- What lies below the input and is a product is reached over a link, unless it is below an output that
is the input itself. -/
theorem overLink_of_own {ns : List Name} (hroot : t.path.isAbsolute = true) (hns : ns ≠ [])
    (hr : fs.locate dir true (t.path.below ns) = .ok r) (hq : q ∈ t.products)
    (hown : IsOf fs dir t q r) (hout : q = t.workspace.output → s.bytes ≠ OsString.ofString outputName) :
    OverLink fs dir t (t.path.below ns) r := by
  obtain ⟨k, hk, hplace⟩ := hown
  have hsuffix : k <:+ r := by
    rcases hplace with rfl | ⟨-, hsuffix⟩
    · exact List.suffix_refl _
    · exact hsuffix
  obtain ⟨n, hn⟩ := hb.names q hq
  obtain ⟨hsite, ⟨hlink, hleads⟩ | rfl⟩ := hk.eq hn
  · exact .product hq hlink hleads hsuffix
  have hspot : n :: d ∈ spots fs dir t := mem_spots.2 ⟨q, hq, hsite⟩
  have hinside {js ks x} (hns : ns = js ++ ks) (hlink : fs.IsLink dir (t.path.below ks))
      (hx : fs.locate dir true (t.path.below ks) = .ok x) (hrx : r = js ++ x) :
      OverLink fs dir t (t.path.below ns) r := by
    have hpath : t.path.below ns = (t.path.below ks).below js :=
      hns ▸ Path.below_append t.path js ks
    exact .inside hpath hlink hx hspot
      (List.suffix_or_suffix_of_suffix (hrx ▸ List.suffix_append js x) hsuffix)
  rcases locate_below_cases hroot hr with ⟨js, ks, x, hns, hlink, hx, hrx⟩ | ⟨x, hx, hrx⟩
  · exact hinside hns hlink hx hrx
  by_cases hlink : fs.IsLink dir t.path
  · exact hinside (List.append_nil ns).symm hlink hx hrx
  -- without a link the path leads below the input, whose name the product does not have
  obtain rfl := hb.eq_of_locate hlink hx
  subst hrx
  rcases hplace with heq | ⟨hname, hbelow⟩
  · have hlength := congrArg List.length heq
    have hpos := List.length_pos_iff.2 hns
    simp only [List.length_append, List.length_cons] at hlength
    omega
  · have hsame : n = s := eq_of_suffix hbelow (List.suffix_append ns _)
    rcases hname with rfl | rfl
    · exact absurd hsame (hb.compiled n hn)
    · exact absurd (hsame ▸ names_unique hn hb.output) (hout rfl)

/-- The places of the products do not depend on what stands there. -/
theorem spots_eq (hwithin : fs.Within b) : spots b dir t = spots fs dir t := by
  refine List.filterMap_congr fun q hq => Option.ext fun k => ?_
  obtain ⟨n, hn⟩ := hb.names q hq
  rw [hn.site?_eq_some_iff, (hn.mono hwithin).site?_eq_some_iff]

theorem without_of_bare (hbare : bare b dir t = fs) : b.without (spots fs dir t) = fs := by
  have hwithin : fs.Within b := hbare ▸ within_without (nil_notMem_spots b dir t)
  rw [← hb.spots_eq hwithin]
  exact hbare

theorem without_self (hbare : bare b dir t = fs) : fs.without (spots fs dir t) = fs := by
  have hidem : (b.without (spots fs dir t)).without _ = _ := without_idem
  rwa [hb.without_of_bare hbare] at hidem

theorem eq_cons_of_mem_spots (hk : k ∈ spots fs dir t) : ∃ n : Name, k = n :: d := by
  obtain ⟨q, hq, hsite⟩ := mem_spots.1 hk
  obtain ⟨n, hn⟩ := hb.names q hq
  obtain ⟨-, n', -, -, rfl⟩ := hn.site?_eq_some_iff.1 hsite
  exact ⟨n', rfl⟩

theorem not_around (hbare : fs.without (spots fs dir t) = fs)
    (hforeign : fs.Foreign dir (spots fs dir t) t.path) (hr : fs.locate dir true t.path = .ok r) :
    ∀ k ∈ spots fs dir t, ¬ r <:+ k := by
  by_cases hlink : fs.IsLink dir t.path
  · exact (hforeign [] hlink fs hbare r hr).2
  intro k hk hrk
  obtain rfl := hb.eq_of_locate hlink hr
  obtain ⟨n, rfl⟩ := hb.eq_cons_of_mem_spots hk
  have hsome := isSome_of_locate hr
  rw [eq_of_suffix hrk (List.suffix_refl _), ← hbare,
    get?_without (nil_notMem_spots fs dir t), if_pos ⟨_, hk, List.suffix_refl _⟩] at hsome
  cases hsome

end Beside
end SmaliBuild.Input
