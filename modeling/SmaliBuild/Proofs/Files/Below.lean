import SmaliBuild.Proofs.Files.Prune
/-!
# Where paths below a path lead

A path with names behind it leads through directories, each the entry of the one before.  Where it
crosses no link it ends up below the place that it set out from; otherwise below the place that the
last link on its way leads to (`locate_below_cases`).
-/
namespace SmaliBuild

namespace Path

theorem isAbsolute_below (p : Path) (ns : List Name) : (p.below ns).isAbsolute = p.isAbsolute := by
  induction ns with
  | nil => rfl
  | cons n ns ih => rw [below_cons, isAbsolute_entry, ih]

theorem below_append (p : Path) (js ks : List Name) : p.below (js ++ ks) = (p.below ks).below js :=
  List.foldr_append

theorem check_eq_ok_iff {p : Path} :
    p.check = .ok () ↔ 0 ∉ p.text ∧ p.text ≠ [] ∧ p.byteLength < pathLimit := by
  unfold check
  split
  · simp [*]
  split
  · simp [*]
  split
  · simp [*]
  · simp only [*, not_false_eq_true, ne_eq, true_and, true_iff]
    omega

theorem check_of_entry {q : Path} {n : Name} (hq : q.isAbsolute = true)
    (hc : (q.entry n.bytes).check = .ok ()) : q.check = .ok () := by
  obtain ⟨hnul, -, hshort⟩ := check_eq_ok_iff.1 hc
  have hlonger := byteLength_lt_entry q n.bytes_ne_nil
  refine check_eq_ok_iff.2 ⟨fun hmem => hnul ?_, fun htext => ?_, by omega⟩
  · unfold entry extend
    split
    · exact List.mem_append_left _ hmem
    · exact List.mem_append_left _ hmem
  · rw [isAbsolute, htext] at hq
    cases hq

end Path

namespace FileSystem
variable {fs b c : FileSystem} {dir l m r x : Location} {n : Name} {ns : List Name} {p q root : Path}
variable {spots : List Location}

/-- The entry that the path names is a link. -/
def IsLink (fs : FileSystem) (dir : Location) (q : Path) : Prop :=
  ∃ l target, fs.site? dir q = some l ∧ fs.get? l = some (.link target)

theorem site?_entry (hq : fs.locate dir true q = .ok m) (hm : fs.get? m = some .directory)
    (hc : (q.entry n.bytes).check = .ok ()) (hfits : Fits n.bytes) :
    fs.site? dir (q.entry n.bytes) = some (n :: m) := by
  refine site?_eq_some_iff.2 ⟨hc, q.words, m, n, rfl, Path.words_entry q n, hfits, ?_, hm⟩
  rw [Path.start_entry]
  exact leads_words (locate_eq_ok_iff.1 hq).2 hm

theorem locate_entry_cases (hq : q.isAbsolute = true)
    (h : fs.locate dir true (q.entry n.bytes) = .ok r) :
    ∃ m, fs.locate dir true q = .ok m ∧ fs.get? m = some .directory ∧
      fs.site? dir (q.entry n.bytes) = some (n :: m) ∧
      (fs.IsLink dir (q.entry n.bytes) ∨ r = n :: m) := by
  obtain ⟨hc, hleads⟩ := locate_eq_ok_iff.1 h
  rw [Path.steps_entry, Path.start_entry] at hleads
  obtain ⟨m, hm, hdir⟩ := hleads.of_append (by simp)
  have hfits : Fits n.bytes := hleads.fits (by simp)
  have hlocate : fs.locate dir true q = .ok m := by
    refine locate_eq_ok_iff.2 ⟨Path.check_of_entry hq hc, ?_⟩
    rw [Path.steps_eq]
    split
    · exact leads_append_dot.2 ⟨hm, hdir⟩
    · rwa [List.append_nil]
  have hsite := site?_entry hlocate hdir hc hfits
  refine ⟨m, hlocate, hdir, hsite, ?_⟩
  by_cases hlink : ∃ target, fs.get? (n :: m) = some (.link target)
  · obtain ⟨target, ht⟩ := hlink
    exact Or.inl ⟨_, target, hsite, ht⟩
  · exact Or.inr (eq_site_of_locate hsite (fun target ht => hlink ⟨target, ht⟩) h)

/-- A path below another one leads below the place of a link that it crosses, or below that of the
path that it set out from. -/
theorem locate_below_cases (hp : p.isAbsolute = true)
    (h : fs.locate dir true (p.below ns) = .ok r) :
    (∃ js ks x, ns = js ++ ks ∧ fs.IsLink dir (p.below ks) ∧
        fs.locate dir true (p.below ks) = .ok x ∧ r = js ++ x) ∨
      ∃ x, fs.locate dir true p = .ok x ∧ r = ns ++ x := by
  induction ns generalizing r with
  | nil => exact Or.inr ⟨r, h, rfl⟩
  | cons n ns ih =>
    obtain ⟨m, hm, -, -, hlink | rfl⟩ :=
      locate_entry_cases ((Path.isAbsolute_below p ns).trans hp) h
    · exact Or.inl ⟨[], n :: ns, r, rfl, hlink, h, rfl⟩
    · rcases ih hm with ⟨js, ks, x, rfl, hlink, hx, rfl⟩ | ⟨x, hx, rfl⟩
      · exact Or.inl ⟨n :: js, ks, x, rfl, hlink, hx, rfl⟩
      · exact Or.inr ⟨x, hx, rfl⟩

theorem exists_locate_of_below (hp : p.isAbsolute = true) (hns : ns ≠ [])
    (h : fs.locate dir true (p.below ns) = .ok r) :
    ∃ x, fs.locate dir true p = .ok x ∧ fs.get? x = some .directory := by
  induction ns generalizing r with
  | nil => exact absurd rfl hns
  | cons n ns ih =>
    obtain ⟨m, hm, hdir, -⟩ := locate_entry_cases ((Path.isAbsolute_below p ns).trans hp) h
    cases ns with
    | nil => exact ⟨m, hm, hdir⟩
    | cons k ks => exact ih (by simp) hm

/-! ## Links that lead elsewhere -/

/-- Whatever stands at the places `spots`, a link at or below `root` does not lead there, nor through
there, nor to a directory around them; all else that there is is in `c`. -/
def Foreign (c : FileSystem) (dir : Location) (spots : List Location) (root : Path) : Prop :=
  ∀ ns, c.IsLink dir (root.below ns) → ∀ b : FileSystem, b.without spots = c →
    ∀ r, b.locate dir true (root.below ns) = .ok r →
      c.locate dir true (root.below ns) = .ok r ∧ ∀ k ∈ spots, ¬ r <:+ k

section
variable (hspots : [] ∉ spots) (hb : b.without spots = c)
include hspots hb

theorem get?_of_without (hl : (c.get? l).isSome) : b.get? l = c.get? l := by
  have hget : (b.without spots).get? l = _ := get?_without hspots
  rw [hb] at hget
  split at hget
  · rw [hget] at hl
    cases hl
  · exact hget.symm

theorem get?_cons_of_without (hm : (c.get? m).isSome) (haround : ∀ k ∈ spots, ¬ m <:+ k) :
    c.get? (n :: m) = b.get? (n :: m) := by
  rw [← hb, get?_without hspots, if_neg]
  rintro ⟨k, hk, hkm⟩
  rcases List.suffix_cons_iff.1 hkm with rfl | hkm
  · exact haround _ hk (List.suffix_cons n m)
  · have hnone : c.get? m = none := by
      rw [← hb, get?_without hspots, if_pos ⟨k, hk, hkm⟩]
    rw [hnone] at hm
    cases hm

variable (hforeign : c.Foreign dir spots root) (hroot : root.isAbsolute = true)
variable (hx : c.locate dir true root = .ok x) (hbase : ∀ k ∈ spots, ¬ x <:+ k)
include hforeign hroot hx hbase

/-- Then no path below leads there, nor to a directory around, and all lead where they lead without. -/
theorem Foreign.locate (h : b.locate dir true (root.below ns) = .ok r) :
    c.locate dir true (root.below ns) = .ok r ∧ ∀ k ∈ spots, ¬ r <:+ k := by
  have hwithin : c.Within b := hb ▸ within_without hspots
  induction ns generalizing r with
  | nil =>
    obtain rfl := Except.ok.inj ((locate_mono hwithin hx).symm.trans h)
    exact ⟨hx, hbase⟩
  | cons n ns ih =>
    obtain ⟨m, hm, hdir, hsite, -⟩ :=
      locate_entry_cases ((Path.isAbsolute_below root ns).trans hroot) h
    obtain ⟨hcm, haround⟩ := ih hm
    have hsome := isSome_of_locate hcm
    rw [get?_of_without hspots hb hsome] at hdir
    have hentry := get?_cons_of_without hspots hb hsome haround (n := n)
    obtain ⟨hc, -, d, n', heq, -, hfits, -⟩ := site?_eq_some_iff.1 hsite
    obtain ⟨rfl, rfl⟩ := List.cons.inj heq
    have hcsite := site?_entry hcm hdir hc hfits
    by_cases hlink : ∃ target, c.get? (n :: m) = some (.link target)
    · obtain ⟨target, ht⟩ := hlink
      exact hforeign (n :: ns) ⟨_, target, hcsite, ht⟩ b hb r h
    · have hplain (target : Path) (ht : b.get? (n :: m) = some (.link target)) : False :=
        hlink ⟨target, hentry.trans ht⟩
      obtain rfl := eq_site_of_locate hsite hplain h
      obtain ⟨e, he⟩ := Option.isSome_iff_exists.1 (isSome_of_locate h)
      refine ⟨locate_of_site_plain hcsite (Path.endsWithSlash_entry _ n) (hentry.trans he) ?_, ?_⟩
      · rintro target rfl
        exact hplain target he
      · exact fun k hk hnk => haround k hk ((List.suffix_cons n m).trans hnk)

theorem Foreign.isDirectory_eq (ns : List Name) :
    b.isDirectory dir (root.below ns) = c.isDirectory dir (root.below ns) := by
  have hwithin : c.Within b := hb ▸ within_without hspots
  rw [Bool.eq_iff_iff, isDirectory_iff, isDirectory_iff]
  constructor
  · rintro ⟨r, hr, hd⟩
    obtain ⟨hcr, -⟩ := hforeign.locate hspots hb hroot hx hbase hr
    exact ⟨r, hcr, by rw [← get?_of_without hspots hb (isSome_of_locate hcr), hd]⟩
  · rintro ⟨r, hr, hd⟩
    exact ⟨r, locate_mono hwithin hr, hwithin.directory hd⟩

theorem Foreign.list_eq (hdir : c.isDirectory dir (root.below ns) = true) :
    b.list dir (root.below ns) = c.list dir (root.below ns) := by
  have hwithin : c.Within b := hb ▸ within_without hspots
  obtain ⟨r, hr, hd⟩ := isDirectory_iff.1 hdir
  have hbr := locate_mono hwithin hr
  obtain ⟨-, haround⟩ := hforeign.locate hspots hb hroot hx hbase hbr
  have hnames : c.names r = b.names r := by
    rw [← hb]
    refine names_without fun k hk n hkn => ?_
    rcases List.suffix_cons_iff.1 hkn with rfl | hkr
    · exact haround _ hk (List.suffix_cons n r)
    · rw [← hb, get?_without hspots, if_pos ⟨k, hk, hkr⟩] at hd
      cases hd
  rw [list_eq_ok_iff.2 ⟨r, hr, hd, rfl⟩, hnames]
  exact list_eq_ok_iff.2 ⟨r, hbr, hwithin.directory hd, rfl⟩

end

end FileSystem
end SmaliBuild
