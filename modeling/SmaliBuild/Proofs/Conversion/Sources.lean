import SmaliBuild.Proofs.Conversion.Order
import SmaliBuild.Proofs.Conversion.Residue
import SmaliBuild.Proofs.Input.Products
import SmaliBuild.Proofs.Manifest.Renewal
/-!
# What is compiled as a source

The products of a run stand next to its source directory, so they are listed as sources only where a
link leads out of the source directory to them (`listed_own`).  Where no link does, a run that finds
products of an earlier one lists the same sources as a run that finds none (`listing_alike`), and makes
the same requests of tools to which the products make no difference (`requests_congr`).
-/
namespace SmaliBuild

namespace Manifest
open FileSystem Host
variable {c : FileSystem} {dir l x : Location} {spots : List Location} {root path p : Path}
variable {h h₁ h₂ : Host}

/-- Where a path cannot be used at all, it does not matter what is there. -/
theorem build_of_check {e : IoError} (hroot : root.Canonical) (hc : path.check = .error e)
    (ha : Abreast h₁ h₂) : (h₂.run (build root path)).1 = (h₁.run (build root path)).1 := by
  have hunlink (h : Host) : (h.run (Host.unlink path)).2 = h.counted := by
    rcases run_unlink_cases (h := h) (p := path) with ⟨x, hrun⟩ | ⟨l, -, hsite, -, -, -⟩
    · rw [hrun]
    · cases hc.symm.trans (site?_eq_some_iff.1 hsite).1
  obtain ⟨j₁, hrun₁⟩ := run_build_cleared path (Input.run_absolute_of_canonical (h := h₁) hroot)
  obtain ⟨j₂, hrun₂⟩ := run_build_cleared path (Input.run_absolute_of_canonical (h := h₂) hroot)
  rw [hrun₁, hrun₂, hunlink, hunlink, create, run_bind, run_bind,
    run_createFile_error (createFile_of_check hc), run_createFile_error (createFile_of_check hc),
    (ha.counted.noting j₁ j₂).now]
  rfl

/-! ## Machines that differ in the products -/

/-- The two machines are abreast and differ only in what stands at the places `spots`, but not in the
entry at `l`; without those there is `c`. -/
structure Matched (c : FileSystem) (dir : Location) (spots : List Location) (l : Location)
    (h₁ h₂ : Host) : Prop extends Abreast h₁ h₂ where
  here : h₁.directory = dir
  first : h₁.files.without spots = c
  second : h₂.files.without spots = c
  content : h₂.files.get? l = h₁.files.get? l

theorem Matched.noting (hm : Matched c dir spots l h₁ h₂) (j₁ j₂ : Journal) :
    Matched c dir spots l (h₁.noting j₁) (h₂.noting j₂) :=
  ⟨hm.toAbreast.noting j₁ j₂, hm.here, hm.first, hm.second, hm.content⟩

theorem Matched.counted (hm : Matched c dir spots l h₁ h₂) :
    Matched c dir spots l h₁.counted h₂.counted :=
  ⟨hm.toAbreast.counted, hm.here, hm.first, hm.second, hm.content⟩

theorem Matched.append (hm : Matched c dir spots l h₁ h₂) (hl : l ∈ spots) (written : Bytes) :
    Matched c dir spots l (h₁.counted.withFiles (h₁.files.append l written))
      (h₂.counted.withFiles (h₂.files.append l written)) where
  toAbreast := hm.toAbreast.counted.withFiles _ _
  here := hm.here
  first := (without_congr hl prune_append).trans hm.first
  second := (without_congr hl prune_append).trans hm.second
  content := by
    change (h₂.files.append l written).get? l = (h₁.files.append l written).get? l
    rw [get?_append, get?_append, hm.content]

section
variable (hspots : [] ∉ spots) (hl : l ∈ spots) (hforeign : c.Foreign dir spots root)
variable (hroot : root.isAbsolute = true) (hx : c.locate dir true root = .ok x)
variable (hbase : ∀ k ∈ spots, ¬ x <:+ k)
include hspots hforeign hroot hx hbase

theorem Matched.isDirectory_eq (hm : Matched c dir spots l h₁ h₂) (ns : List Name) :
    h₁.files.isDirectory h₁.directory (root.below ns) = c.isDirectory dir (root.below ns) ∧
      h₂.files.isDirectory h₂.directory (root.below ns) = c.isDirectory dir (root.below ns) := by
  rw [hm.directory, hm.here]
  exact ⟨hforeign.isDirectory_eq hspots hm.first hroot hx hbase ns,
    hforeign.isDirectory_eq hspots hm.second hroot hx hbase ns⟩

include hl in
/-- A walk below a root from which no link leads to the products goes on alike. -/
theorem paired_matched : Paired l (Matched c dir spots l) (fun q => ∃ ns, q = root.below ns)
    (fun q => ∃ ns, q = root.below ns ∧ c.isDirectory dir q = true) where
  noting _ _ j₁ j₂ hm := hm.noting j₁ j₂
  append _ := append_alike (fun _ _ hm => hm.toAbreast) fun _ _ written hm => hm.append hl written
  list := by
    rintro _ ⟨ns, rfl, hdir⟩
    refine .of_counted (fun _ => run_list_snd) (fun _ _ hm => hm.counted) fun h₁ h₂ hm => ?_
    refine run_list_congr hm.now ?_
    rw [hm.directory, hm.here, hforeign.list_eq hspots hm.first hroot hx hbase hdir,
      hforeign.list_eq hspots hm.second hroot hx hbase hdir]
  isDirectory := by
    rintro _ ⟨ns, rfl⟩
    refine .of_counted (fun _ => run_isDirectory_snd) (fun _ _ hm => hm.counted) fun h₁ h₂ hm => ?_
    obtain ⟨hfirst, hsecond⟩ := hm.isDirectory_eq hspots hforeign hroot hx hbase ns
    exact run_isDirectory_congr hm.now (hsecond.trans hfirst.symm)
  entry := by
    rintro _ n ⟨ns, rfl, -⟩
    exact ⟨n :: ns, rfl⟩
  enter := by
    rintro h₁ h₂ _ hm ⟨ns, rfl⟩ henter
    exact ⟨ns, rfl, (hm.isDirectory_eq hspots hforeign hroot hx hbase ns).1.symm.trans
      (isDirectory_of_run henter)⟩

variable (hdir : c.isDirectory dir root = true)
include hl hdir

theorem create_matched (hm : Matched c dir spots l h₁ h₂)
    (hsite₁ : h₁.files.site? h₁.directory path = some l)
    (hsite₂ : h₂.files.site? h₂.directory path = some l) (hfree : h₁.files.get? l = none)
    (hslash : path.endsWithSlash = false) :
    (h₂.run (create root path)).1 = (h₁.run (create root path)).1 ∧
      Matched c dir spots l (h₁.run (create root path)).2 (h₂.run (create root path)).2 := by
  have hpaired := paired_matched hspots hl hforeign hroot hx hbase
  obtain ⟨made₁, hmade₁, hrun₁⟩ := run_createFile_free hsite₁ hfree hslash
  obtain ⟨made₂, hmade₂, hrun₂⟩ := run_createFile_free hsite₂ (hm.content.trans hfree) hslash
  rw [create, run_bind, run_bind, hrun₁, hrun₂, hm.now]
  cases h₁.faults h₁.made with
  | some fault => exact ⟨rfl, hm.counted⟩
  | none =>
    have hopen : Matched c dir spots l (h₁.counted.withFiles made₁) (h₂.counted.withFiles made₂) :=
      { toAbreast := hm.toAbreast.counted.withFiles _ _
        here := hm.here
        first := (without_congr hl (prune_createFile hmade₁)).trans hm.first
        second := (without_congr hl (prune_createFile hmade₂)).trans hm.second
        content := by
          change made₂.get? l = made₁.get? l
          rw [(createFile_eq_ok hmade₁).2.2, (createFile_eq_ok hmade₂).2.2, if_pos rfl, if_pos rfl] }
    have hwalk := addDirectory_alike hpaired root ⟨[], rfl, hdir⟩ ⟨path, [], []⟩
    exact (hwalk.bind fun m => (log_alike hpaired.noting _ _ _).bind fun _ =>
      .pure (Except.ok m)) _ _ hopen

theorem build_matched (hcanonical : root.Canonical) (ha : Abreast h₁ h₂) (here : h₁.directory = dir)
    (hfirst : h₁.files.without spots = c) (hsecond : h₂.files.without spots = c)
    (hsite : c.site? dir path = some l) (hdir₁ : h₁.files.get? l ≠ some .directory)
    (hdir₂ : h₂.files.get? l ≠ some .directory) (hslash : path.endsWithSlash = false)
    (hf : h₁.faults h₁.made = none) :
    (h₂.run (build root path)).1 = (h₁.run (build root path)).1 ∧
      Matched c dir spots l (h₁.run (build root path)).2 (h₂.run (build root path)).2 := by
  have hthere : h₂.directory = dir := ha.directory.trans here
  have hpruned (fs : FileSystem) : (fs.prune l).without spots = fs.without spots := without_prune hl
  have hgone (fs : FileSystem) : (fs.prune l).get? l = none := get?_prune_self (site?_ne_nil hsite)
  have hplace {fs : FileSystem} (hfs : fs.without spots = c) : fs.site? dir path = some l :=
    site?_mono (hfs ▸ within_without hspots) hsite
  obtain ⟨j₁, hrun₁⟩ := run_build_cleared path (Input.run_absolute_of_canonical (h := h₁) hcanonical)
  obtain ⟨j₂, hrun₂⟩ := run_build_cleared path (Input.run_absolute_of_canonical (h := h₂) hcanonical)
  rw [run_unlink_snd (here.symm ▸ hplace hfirst) hdir₁ hslash hf] at hrun₁
  rw [run_unlink_snd (hthere.symm ▸ hplace hsecond) hdir₂ hslash (ha.now ▸ hf)] at hrun₂
  have hcleared : Matched c dir spots l ((h₁.counted.withFiles (h₁.files.prune l)).noting j₁)
      ((h₂.counted.withFiles (h₂.files.prune l)).noting j₂) :=
    { toAbreast := (ha.counted.withFiles _ _).noting j₁ j₂
      here := here
      first := (hpruned _).trans hfirst
      second := (hpruned _).trans hsecond
      content := (hgone h₂.files).trans (hgone h₁.files).symm }
  rw [hrun₁, hrun₂]
  refine create_matched hspots hl hforeign hroot hx hbase hdir hcleared ?_ ?_ (hgone _) hslash
  · exact here.symm ▸ hplace ((hpruned _).trans hfirst)
  · exact hthere.symm ▸ hplace ((hpruned _).trans hsecond)

end

theorem exists_build_listing {r e : Path} {k : Location} {content : Bytes} {x : Bool}
    (hsound : ∀ i, h.faults i = none) (hsite : h.files.site? h.directory path = some l)
    (hfree : h.files.get? l = none) (hslash : path.endsWithSlash = false)
    (hroot : (h.run (Host.absolute root)).1 = .ok r) (hbelow : Below h.files h.directory r e)
    (hk : h.files.locate h.directory true e = .ok k) (hfile : h.files.get? k = some (.file content x)) :
    ∃ m h', h.run (build root path) = (.ok m, h') ∧ e ∈ m.entries ∧ h.files.Within h'.files := by
  obtain ⟨-, hsteady, hget⟩ := recreated_of_free hsound hsite hfree hslash
  obtain ⟨m, h', hbuild, hskipped, hquiet⟩ :=
    exists_build_whole hsound hsite hfree hslash hroot hbelow.isDirectory
  have hwithin := within_of_free hfree hget
  have hother : k ≠ l := fun h => by
    rw [h, hfree] at hfile
    cases hfile
  refine ⟨m, h', hbuild, (build_listed hbuild hskipped hroot hquiet).2 ?_, ?_⟩
  · rw [hsteady.directory]
    exact ⟨hbelow.mono hwithin, isDirectory_of_locate (locate_mono hwithin hk)
      ((hget k).trans ((if_neg hother).trans hfile))⟩
  · obtain ⟨r', l', event, -, -, -, -, -, rfl⟩ := build_eq_ok hbuild
    exact hwithin.trans (addDirectory_ensures l' r' ⟨path, [], []⟩ (recreated path h)).1.within

end Manifest

namespace Conversion
open FileSystem Host Input
variable {t : Input} {p typed : Path} {h h₀ h₁ h₂ : Host} {m : Manifest} {c : FileSystem}

/-! ## What the manifest lists -/

theorem exists_below_of_mem (hp : p.Canonical)
    (hm : ((begun (.sourceDirectory p) h).run (listing (.sourceDirectory p))).1 = .ok (some m))
    {e : Path} (he : e ∈ m.entries) : ∃ ns, ns ≠ [] ∧ e = p.below ns := by
  rw [run_listing_directory] at hm
  generalize hbuild : (begun (.sourceDirectory p) h).run
    (Manifest.build p (Input.sourceDirectory p).workspace.manifest) = out at hm
  obtain ⟨answer, h'⟩ := out
  cases answer with
  | error e => cases hm
  | ok m' =>
    obtain rfl := Option.some.inj (Except.ok.inj hm)
    obtain ⟨r, l, event, hroot, -, -, -, rfl, -⟩ := Manifest.build_eq_ok hbuild
    obtain rfl := Except.ok.inj ((run_absolute_of_canonical hp).symm.trans hroot)
    obtain ⟨new, hadds, -, hbelow⟩ := Manifest.addDirectory_adds l p ⟨_, [], []⟩
      (Manifest.recreated (Input.sourceDirectory p).workspace.manifest (begun (.sourceDirectory p) h))
    rw [hadds.entries, List.nil_append] at he
    obtain ⟨n, ns, rfl⟩ := hbelow e he
    exact ⟨ns ++ [n], by simp, (Path.below_concat p ns n).symm⟩

theorem listed_own (hp : p.Canonical) (hnamed : p.fileName ≠ none)
    (hm : ((begun (.sourceDirectory p) h).run (listing (.sourceDirectory p))).1 = .ok (some m))
    {e : Path} (he : e ∈ m.entries) {fs : FileSystem} {dir r : Location}
    (hr : fs.locate dir true e = .ok r) {q : Path} (hq : q ∈ (Input.sourceDirectory p).products)
    (hown : IsOf fs dir (.sourceDirectory p) q r) :
    OverLink fs dir (.sourceDirectory p) e r ∨
      q = (Input.sourceDirectory p).workspace.output ∧ p.fileName = some (OsString.ofString outputName) := by
  obtain ⟨ns, hns, rfl⟩ := exists_below_of_mem hp hm he
  have habsolute := hp.regular.isAbsolute
  obtain ⟨x, hx, hdir⟩ := exists_locate_of_below habsolute hns hr
  have hs : (Input.sourceDirectory p).Stands fs dir :=
    ⟨hp.regular, x, .directory, hx, hdir, rfl⟩
  obtain ⟨s, d, hname, hb⟩ := exists_beside hs hnamed
  by_cases hout : q = (Input.sourceDirectory p).workspace.output ∧ s.bytes = OsString.ofString outputName
  · exact Or.inr ⟨hout.1, hname.trans (congrArg some hout.2)⟩
  · exact Or.inl (hb.overLink_of_own habsolute hns hr hq hown fun hqo hso => hout ⟨hqo, hso⟩)

/-! ## A run that finds products of an earlier one -/

/-- Listings with the same answer lead to the same requests, as long as the tools cannot tell the files
apart. -/
theorem requests_congr {tools : Toolchain} {optimize : Bool} {Q : FileSystem → FileSystem → Prop}
    (hanswer : ((begun t h₂).run (listing t)).1 = ((begun t h₁).run (listing t)).1)
    (hQ : ∀ r a b, Q a b →
      tools.refusal t r b = tools.refusal t r a ∧ Q (tools.leaves r a) (tools.leaves r b))
    (hfound : Q (compileVisit t h₁).found (compileVisit t h₂).found) :
    (courseOf tools optimize t h₂).visits.map (·.request) =
      (courseOf tools optimize t h₁).visits.map (·.request) := by
  have hcourse := Toolchain.course_congr hQ hfound (t.requests optimize)
  unfold courseOf
  unfold compileVisit at hcourse
  generalize (begun t h₁).run (listing t) = out₁ at hanswer hcourse ⊢
  generalize (begun t h₂).run (listing t) = out₂ at hanswer hcourse ⊢
  obtain ⟨answer₁, k₁⟩ := out₁
  obtain ⟨answer₂, k₂⟩ := out₂
  obtain rfl := hanswer
  cases answer₂ with
  | error e => rfl
  | ok m => exact hcourse

theorem listing_alike (hp : p.Canonical) (hnamed : p.fileName ≠ none) (ha : Abreast h₁ h₂)
    (hfirst : bare h₁.files h₁.directory (.sourceDirectory p) = c)
    (hsecond : bare h₂.files h₁.directory (.sourceDirectory p) = c)
    (hs : (Input.sourceDirectory p).Stands c h₁.directory)
    (hforeign : c.Foreign h₁.directory (spots c h₁.directory (.sourceDirectory p)) p)
    (hplain : ∀ l, c.site? h₁.directory (Input.sourceDirectory p).workspace.manifest = some l →
      h₁.files.get? l ≠ some .directory ∧ h₂.files.get? l ≠ some .directory)
    (hf : h₁.faults h₁.made = none) :
    let t := Input.sourceDirectory p
    ((begun t h₂).run (listing t)).1 = ((begun t h₁).run (listing t)).1 ∧
      ∀ l, c.site? h₁.directory t.workspace.manifest = some l →
        (compileVisit t h₂).found.get? l = (compileVisit t h₁).found.get? l := by
  intro t
  obtain ⟨s, d, -, hb⟩ := exists_beside hs hnamed
  obtain ⟨d', hmanifest, -⟩ := hs.names
  obtain ⟨x, e, hx, hxe, he⟩ := hs.found
  have hdir : c.isDirectory h₁.directory p = true :=
    isDirectory_iff.2 ⟨x, hx, Entry.isDirectory_iff.1 he ▸ hxe⟩
  have hbase := hb.not_around (hb.without_self hfirst) hforeign hx
  have hbegun : Abreast (begun t h₁) (begun t h₂) := ⟨ha.directory, ha.ahead⟩
  unfold compileVisit
  rw [run_listing_directory, run_listing_directory]
  cases hsite : c.site? h₁.directory t.workspace.manifest with
  | none =>
    have hnames : Names c t.workspace.manifest d' manifestEntry.bytes := hmanifest
    obtain ⟨e, hc⟩ := exists_check_error hnames (by unfold Fits; decide) hsite
    refine ⟨congrArg (Except.map some) (Manifest.build_of_check hp hc hbegun), fun l hl => ?_⟩
    cases hl
  | some l =>
    have hl : l ∈ spots c h₁.directory t := mem_spots.2 ⟨_, by simp [products], hsite⟩
    obtain ⟨hdir₁, hdir₂⟩ := hplain l hsite
    obtain ⟨hanswer, hafter⟩ := Manifest.build_matched (nil_notMem_spots c _ t) hl hforeign
      hp.regular.isAbsolute hx hbase hdir hp hbegun rfl (hb.without_of_bare hfirst)
      (hb.without_of_bare hsecond) hsite hdir₁ hdir₂ hmanifest.noSlash hf
    refine ⟨congrArg (Except.map some) hanswer, fun k hk => ?_⟩
    obtain rfl := Option.some.inj hk
    exact hafter.content

/-! ## Sources and products apart -/

/-- The products of a run of `t` from `h` on are none of its sources. -/
structure Unmixed (t : Input) (h : Host) : Prop where
  /-- What the compiler finds listed leads to a product only over a link, unless the product is an output
  that has the name of the source directory. -/
  listed : ∀ m, ((begun t h).run (listing t)).1 = .ok (some m) → ∀ e ∈ m.entries, ∀ r,
    (compileVisit t h).found.locate h.directory true e = .ok r → ∀ q ∈ t.products,
    IsOf (compileVisit t h).found h.directory t q r →
    OverLink (compileVisit t h).found h.directory t e r ∨
      q = t.workspace.output ∧ t.path.fileName = some (OsString.ofString outputName)
  /-- If no link leads to the products, other products make no difference to what is listed, nor to
  the requests that are made of tools to which they make none. -/
  rerun : ∀ h₂ c, Abreast h h₂ → bare h.files h.directory t = c → bare h₂.files h.directory t = c →
    t.Stands c h.directory → c.Foreign h.directory (spots c h.directory t) t.path →
    (∀ l, c.site? h.directory t.workspace.manifest = some l →
      h.files.get? l ≠ some .directory ∧ h₂.files.get? l ≠ some .directory) →
    h.faults h.made = none →
    ((begun t h₂).run (listing t)).1 = ((begun t h).run (listing t)).1 ∧
    (∀ l, c.site? h.directory t.workspace.manifest = some l →
      (compileVisit t h₂).found.get? l = (compileVisit t h).found.get? l) ∧
    ∀ (tools : Toolchain) (optimize : Bool) (Q : FileSystem → FileSystem → Prop),
      (∀ r a b, Q a b →
        tools.refusal t r b = tools.refusal t r a ∧ Q (tools.leaves r a) (tools.leaves r b)) →
      Q (compileVisit t h).found (compileVisit t h₂).found →
      (courseOf tools optimize t h₂).visits.map (·.request) =
        (courseOf tools optimize t h).visits.map (·.request)

/-- A source directory that was accepted is not mixed up with what is made of it, if its path ends in a
name. -/
theorem sources_unmixed (hok : h₀.run (resolve typed) = (.ok (.sourceDirectory p), h))
    (hnamed : p.fileName ≠ none) : Unmixed (.sourceDirectory p) h := by
  obtain ⟨q, e, hq, -, hentry, -⟩ := resolve_eq_ok hok
  obtain ⟨rfl, -⟩ := ofEntry_eq_ok hentry
  have hp := canonical_of_run_absolute hq
  constructor
  · intro m hm e he r hr q hq hown
    exact listed_own hp hnamed hm he hr hq hown
  · intro h₂ c ha hfirst hsecond hs hforeign hplain hf
    obtain ⟨hanswer, hcontent⟩ :=
      listing_alike hp hnamed ha hfirst hsecond hs hforeign hplain hf
    exact ⟨hanswer, hcontent, fun tools optimize Q hQ hfound => requests_congr hanswer hQ hfound⟩

/-! ## Products among the sources -/

/-- A product is listed as a source when `typed` is converted, and that is `e`. -/
def Mixed (fs : FileSystem) (typed e : Path) : Prop :=
  let t := Input.sourceDirectory typed
  let h := (Host.sound fs []).counted
  (Host.sound fs []).run (resolve typed) = (.ok t, h) ∧
    ∃ m, ((begun t h).run (listing t)).1 = .ok (some m) ∧ e ∈ m.entries ∧
      ∃ r, (compileVisit t h).found.locate h.directory true e = .ok r ∧
        Own (compileVisit t h).found h.directory t r

theorem mixed_of_below {fs : FileSystem} {e : Path} {l r : Location} {content : Bytes} {x : Bool}
    (hquote : typed.withoutTrailingQuote = typed) (hspace : 0x20 ∉ typed.text)
    (habsolute : ((Host.sound fs []).run (Host.absolute typed)).1 = .ok typed)
    (hdir : ((Host.sound fs []).run (Host.stat typed)).1 = .ok .directory)
    (hsite : fs.site? [] (Input.sourceDirectory typed).workspace.manifest = some l)
    (hfree : fs.get? l = none)
    (hslash : (Input.sourceDirectory typed).workspace.manifest.endsWithSlash = false)
    (hbelow : Manifest.Below fs [] typed e) (hr : fs.locate [] true e = .ok r)
    (hfile : fs.get? r = some (.file content x)) (hown : Own fs [] (.sourceDirectory typed) r) :
    Mixed fs typed e := by
  have hroot : ((begun (.sourceDirectory typed) (Host.sound fs []).counted).run
      (Host.absolute typed)).1 = .ok typed :=
    run_absolute_of_canonical (canonical_of_run_absolute habsolute)
  obtain ⟨m, h', hbuild, he, hwithin⟩ := Manifest.exists_build_listing
    (h := begun (.sourceDirectory typed) (Host.sound fs []).counted) (fun _ => rfl) hsite hfree hslash
    hroot hbelow hr hfile
  refine ⟨run_resolve_directory hquote habsolute hdir hspace, m, ?_, he, r, ?_⟩
  · rw [run_listing_directory, hbuild]
    rfl
  · rw [compileVisit, run_listing_directory, hbuild]
    exact ⟨locate_mono hwithin hr, hown.mono hwithin⟩

/-- A source directory with a source file, and a link to the bundle that is next to it. -/
def strayFiles : FileSystem where
  entries := [([sourceEntry], .directory), ([sourceFileEntry, sourceEntry], .file [] false),
    ([Manifest.sharedFile, sourceEntry], .link (.ofString "../classes.dex")), ([bundleEntry], .file [] false)]
  unique := by decide
  rooted := by simp

/-- A directory in another one, with a file where the bundle would be if the other one was converted
under the path `..`. -/
def raisedFiles : FileSystem where
  entries := [([libraryEntry], .directory), ([sourceEntry, libraryEntry], .directory),
    ([bundleEntry, sourceEntry, libraryEntry], .file [] false)]
  unique := by decide
  rooted := by simp

/-- A source directory that has the name of the output. -/
def convertedFiles : FileSystem where
  entries := [([outputEntry], .directory), ([sourceFileEntry, outputEntry], .file [] false)]
  unique := by decide
  rooted := by simp

def sourceInput : Path := .ofString "/src"

def strayPath : Path := .ofString "/src/B.java"

def raisedInput : Path := .ofString "/lib/src/.."

def raisedPath : Path := .ofString "/lib/src/../src/classes.dex"

def convertedInput : Path := .ofString "/converted"

def convertedPath : Path := .ofString "/converted/A.java"

theorem mixed_strayFiles : Mixed strayFiles sourceInput strayPath := by
  have hstart : strayFiles.locate [] true sourceInput = .ok [sourceEntry] := by cbv
  have hplace : strayFiles.locate [] true strayPath = .ok [bundleEntry] := by cbv
  have hpath : strayPath = sourceInput.entry Manifest.sharedFile.bytes := by cbv
  have hbelow : Manifest.Below strayFiles [] sourceInput strayPath :=
    hpath ▸ .entry hstart rfl rfl
  have hmanifest : strayFiles.site? [] (Input.sourceDirectory sourceInput).workspace.manifest =
      some [manifestEntry] := by cbv
  have hbundle : strayFiles.site? [] (Input.sourceDirectory sourceInput).workspace.bundle =
      some [bundleEntry] := by cbv
  exact mixed_of_below (by cbv) (by decide) (by cbv) (by cbv) hmanifest (by decide) (by cbv) hbelow
    hplace rfl ⟨_, List.mem_cons_of_mem _ List.mem_cons_self, _, Or.inl hbundle, Or.inl rfl⟩

theorem mixed_raisedFiles : Mixed raisedFiles raisedInput raisedPath := by
  have hstart : raisedFiles.locate [] true raisedInput = .ok [libraryEntry] := by cbv
  have hinner : raisedFiles.locate [] true (raisedInput.entry sourceEntry.bytes) =
      .ok [sourceEntry, libraryEntry] := by cbv
  have hplace : raisedFiles.locate [] true raisedPath =
      .ok [bundleEntry, sourceEntry, libraryEntry] := by cbv
  have hpath : raisedPath = (raisedInput.entry sourceEntry.bytes).entry bundleEntry.bytes := by cbv
  have hbelow : Manifest.Below raisedFiles [] raisedInput raisedPath :=
    hpath ▸ .inside hstart rfl rfl (.entry hinner rfl rfl)
  have hmanifest : raisedFiles.site? [] (Input.sourceDirectory raisedInput).workspace.manifest =
      some [manifestEntry, sourceEntry, libraryEntry] := by cbv
  have hbundle : raisedFiles.site? [] (Input.sourceDirectory raisedInput).workspace.bundle =
      some [bundleEntry, sourceEntry, libraryEntry] := by cbv
  exact mixed_of_below (by cbv) (by decide) (by cbv) (by cbv) hmanifest (by decide) (by cbv) hbelow
    hplace rfl ⟨_, List.mem_cons_of_mem _ List.mem_cons_self, _, Or.inl hbundle, Or.inl rfl⟩

theorem mixed_convertedFiles : Mixed convertedFiles convertedInput convertedPath := by
  have hstart : convertedFiles.locate [] true convertedInput = .ok [outputEntry] := by cbv
  have hplace : convertedFiles.locate [] true convertedPath =
      .ok [sourceFileEntry, outputEntry] := by cbv
  have hpath : convertedPath = convertedInput.entry sourceFileEntry.bytes := by cbv
  have hbelow : Manifest.Below convertedFiles [] convertedInput convertedPath :=
    hpath ▸ .entry hstart rfl rfl
  have hmanifest : convertedFiles.site? []
      (Input.sourceDirectory convertedInput).workspace.manifest = some [manifestEntry] := by cbv
  have houtput : convertedFiles.site? []
      (Input.sourceDirectory convertedInput).workspace.output = some [outputEntry] := by cbv
  have hown : Own convertedFiles [] (.sourceDirectory convertedInput) [sourceFileEntry, outputEntry] :=
    ⟨_, by simp only [products, List.mem_cons, true_or, or_true], _, Or.inl houtput,
      Or.inr ⟨Or.inr rfl, List.suffix_cons _ _⟩⟩
  exact mixed_of_below (by cbv) (by decide) (by cbv) (by cbv) hmanifest (by decide) (by cbv) hbelow
    hplace rfl hown

/-- Products are compiled as sources over a link, under a path that ends in `..`, and out of a directory
that has the name of the output. -/
theorem products_listed : Mixed strayFiles sourceInput strayPath ∧
    Mixed raisedFiles raisedInput raisedPath ∧ Mixed convertedFiles convertedInput convertedPath :=
  ⟨mixed_strayFiles, mixed_raisedFiles, mixed_convertedFiles⟩

/-- A source directory with a source file. -/
def sourceFiles : FileSystem where
  entries := [([sourceEntry], .directory), ([sourceFileEntry, sourceEntry], .file [] false)]
  unique := by decide
  rooted := by simp

/-- The same, next to what a run has left. -/
def leftFiles : FileSystem where
  entries := [([bundleEntry], .file [] false), ([manifestEntry], .file [] false),
    ([sourceEntry], .directory), ([sourceFileEntry, sourceEntry], .file [] false)]
  unique := by decide
  rooted := by simp

theorem site?_manifest_sourceInput (fs : FileSystem) :
    fs.site? [] (Input.sourceDirectory sourceInput).workspace.manifest = some [manifestEntry] :=
  site?_at_root fs (by cbv) (by cbv) (by unfold Fits; decide)

theorem spots_sourceInput (fs : FileSystem) : spots fs [] (.sourceDirectory sourceInput) =
    [[manifestEntry], [bundleEntry], [⟨.ofString "src_compiled", by decide⟩], [outputEntry]] := by
  have hbundle : fs.site? [] (Input.sourceDirectory sourceInput).workspace.bundle =
      some [bundleEntry] := site?_at_root fs (by cbv) (by cbv) (by unfold Fits; decide)
  have hcompiled : fs.site? [] (Input.sourceDirectory sourceInput).compiled =
      some [⟨.ofString "src_compiled", by decide⟩] :=
    site?_at_root fs (by cbv) (by cbv) (by unfold Fits; decide)
  have houtput : fs.site? [] (Input.sourceDirectory sourceInput).workspace.output =
      some [outputEntry] := site?_at_root fs (by cbv) (by cbv) (by unfold Fits; decide)
  simp only [spots, products, List.filterMap_cons, site?_manifest_sourceInput, hbundle, hcompiled,
    houtput, List.filterMap_nil]

theorem bare_sourceFiles : bare sourceFiles [] (.sourceDirectory sourceInput) = sourceFiles := by
  unfold bare
  rw [spots_sourceInput]
  exact eq_of_entries (by decide)

theorem bare_leftFiles : bare leftFiles [] (.sourceDirectory sourceInput) = sourceFiles := by
  unfold bare
  rw [spots_sourceInput]
  exact eq_of_entries (by decide)

theorem not_isLink_sourceFiles (p : Path) : ¬ sourceFiles.IsLink [] p := by
  rintro ⟨l, target, hsite, hlink⟩
  have hmem := mem_entries_of_get? (site?_ne_nil hsite) hlink
  simp [sourceFiles] at hmem

/-- Over a link the bundle is listed; without a link a bundle and a manifest that are left make no
difference. -/
theorem sources_unmixed_shown :
    let t := Input.sourceDirectory sourceInput
    let stray := (Host.sound strayFiles []).counted
    (∃ m, ((begun t stray).run (listing t)).1 = .ok (some m) ∧ strayPath ∈ m.entries ∧
      ∃ r, OverLink (compileVisit t stray).found stray.directory t strayPath r) ∧
    ((begun t (Host.sound leftFiles []).counted).run (listing t)).1 =
      ((begun t (Host.sound sourceFiles []).counted).run (listing t)).1 ∧
    (courseOf latelyFailingTools false t (Host.sound leftFiles []).counted).visits.map (·.request) =
      (courseOf latelyFailingTools false t (Host.sound sourceFiles []).counted).visits.map
        (·.request) := by
  intro t stray
  obtain ⟨hresolve, m, hm, he, r, hr, q, hq, hown⟩ := mixed_strayFiles
  have hname : sourceInput.fileName = some sourceEntry.bytes := by cbv
  have hnamed : sourceInput.fileName ≠ none := by simp [hname]
  have hout : sourceInput.fileName ≠ some (OsString.ofString outputName) := by
    rw [hname]
    decide
  have hlisted := (sources_unmixed hresolve hnamed).listed m hm _ he r hr q hq hown
  refine ⟨⟨m, hm, he, r, hlisted.resolve_right fun hself => hout hself.2⟩, ?_⟩
  have hok := run_resolve_directory (p := sourceInput) (h := Host.sound sourceFiles []) (by cbv)
    (by cbv) (by cbv) (by decide)
  have hplain : ∀ l, sourceFiles.site? [] t.workspace.manifest = some l →
      sourceFiles.get? l ≠ some .directory ∧ leftFiles.get? l ≠ some .directory := by
    intro l hl
    obtain rfl := Option.some.inj ((site?_manifest_sourceInput sourceFiles).symm.trans hl)
    exact ⟨by decide, by decide⟩
  obtain ⟨hanswer, -, hrequests⟩ := (sources_unmixed hok hnamed).rerun
    (Host.sound leftFiles []).counted sourceFiles ⟨rfl, fun _ => rfl⟩ bare_sourceFiles bare_leftFiles
    (resolve_ok hok).2.1 (fun ns hlink => absurd hlink (not_isLink_sourceFiles _)) hplain rfl
  refine ⟨hanswer, hrequests latelyFailingTools false (fun _ _ => True) (fun r a b _ => ?_) trivial⟩
  cases r <;> exact ⟨rfl, trivial⟩

end Conversion
end SmaliBuild
