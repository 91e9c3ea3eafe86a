import SmaliBuild.Proofs.Path.Canonical
import SmaliBuild.Proofs.Path.Derived
import SmaliBuild.Proofs.Text.Lossy
import SmaliBuild.Input
import SmaliBuild.Sweep
/-!
# Where the paths of a conversion lead

An input that was accepted stands in a directory that its path leads through.  The other paths of the
conversion name an entry of that directory, or of one above it.  More entries change nothing of this.
-/
namespace SmaliBuild
open FileSystem

/-- A location is at or below the entry that `q` names. -/
def AtSite (fs : FileSystem) (dir : Location) (q : Path) (l : Location) : Prop :=
  ∃ r, fs.site? dir q = some r ∧ r <:+ l

theorem AtSite.below {fs : FileSystem} {dir l m : Location} {q : Path} (hl : AtSite fs dir q l)
    (hlm : l <:+ m) : AtSite fs dir q m :=
  let ⟨r, hr, hrl⟩ := hl
  ⟨r, hr, hrl.trans hlm⟩

/-- The path `q` is absolute and ends in the word `s`; the words before lead to the directory at `d`. -/
structure Names (fs : FileSystem) (q : Path) (d : Location) (s : Path.Segment) : Prop where
  isAbsolute : q.isAbsolute = true
  noSlash : q.endsWithSlash = false
  leads : ∃ before, q.words = before ++ [s] ∧ fs.Leads true linkLimit [] before d
  enclosing : fs.get? d = some .directory

namespace Names
variable {fs fs' : FileSystem} {dir d l r : Location} {q : Path} {s : Path.Segment}

theorem mono (hn : Names fs q d s) (hw : fs.Within fs') : Names fs' q d s :=
  let ⟨before, hwords, hleads⟩ := hn.leads
  ⟨hn.isAbsolute, hn.noSlash, ⟨before, hwords, hleads.mono hw⟩, hw.directory hn.enclosing⟩

theorem start (hn : Names fs q d s) : q.start dir = [] := by
  rw [Path.start, if_pos hn.isAbsolute]

theorem site?_eq_some_iff (hn : Names fs q d s) : fs.site? dir q = some l ↔
    q.check = .ok () ∧ ∃ n : Name, s = n.bytes ∧ Fits n.bytes ∧ l = n :: d := by
  obtain ⟨before, hwords, hleads⟩ := hn.leads
  rw [FileSystem.site?_eq_some_iff]
  constructor
  · rintro ⟨hc, before', d', n, rfl, hwords', hfits, hleads', -⟩
    obtain ⟨rfl, hs⟩ := List.append_inj' (hwords.symm.trans hwords') rfl
    obtain rfl := List.singleton_inj.1 hs
    rw [hn.start] at hleads'
    exact ⟨hc, n, rfl, hfits, by rw [hleads.unique hleads']⟩
  · rintro ⟨hc, n, rfl, hfits, rfl⟩
    refine ⟨hc, before, d, n, rfl, hwords, hfits, ?_, hn.enclosing⟩
    rw [hn.start]
    exact hleads

theorem locate_iff (hn : Names fs q d s) (dir : Location) : ∃ left, ∀ r, fs.locate dir false q = .ok r ↔
    q.check = .ok () ∧ fs.walk false left d [s] = .ok r := by
  obtain ⟨before, hwords, hleads⟩ := hn.leads
  have hsteps : q.steps = before ++ [s] := by
    rw [Path.steps_eq, hn.noSlash, hwords]
    simp
  obtain ⟨left, -, hwalk⟩ := hleads.append (by simp [hn.enclosing])
  refine ⟨left, fun r => ?_⟩
  rw [locate_eq_ok_iff, hn.start, hsteps, ← walk_eq_ok_iff, hwalk _ _ (by simp)]

theorem cases_of_locate (hn : Names fs q d s) (hr : fs.locate dir false q = .ok r) :
    s = [dot] ∧ r = d ∨ s = Path.up ∧ r = d.tail ∨
      ∃ n : Name, s = n.bytes ∧ Fits n.bytes ∧ r = n :: d := by
  obtain ⟨left, hlocate⟩ := hn.locate_iff dir
  obtain ⟨-, hwalk⟩ := (hlocate r).1 hr
  obtain ⟨-, rfl | rfl | ⟨n, rfl, hfits⟩⟩ := cases_of_walk hwalk
  · rw [walk_dot hn.enclosing, walk_nil] at hwalk
    exact Or.inl ⟨rfl, (Except.ok.inj hwalk).symm⟩
  · rw [walk_up hn.enclosing, walk_nil] at hwalk
    exact Or.inr (Or.inl ⟨rfl, (Except.ok.inj hwalk).symm⟩)
  · have hhere : fs.Leads true left d [] d := .done
    exact Or.inr (Or.inr ⟨n, rfl, hfits,
      ((leads_append_name hhere hn.enclosing).1 (walk_eq_ok_iff.1 hwalk)).1⟩)

/-- A path that leads somewhere with more entries leads to its site, or upwards and then to what
stands there already. -/
theorem of_locate (hn : Names fs q d s) (hw : fs.Within fs')
    (hr : fs'.locate dir false q = .ok r) :
    fs.site? dir q = some r ∨ fs.locate dir false q = .ok r ∧ fs.get? r = some .directory := by
  have hc := check_of_locate hr
  obtain ⟨left, hlocate⟩ := hn.locate_iff dir
  rcases (hn.mono hw).cases_of_locate hr with ⟨rfl, rfl⟩ | ⟨rfl, rfl⟩ | ⟨n, rfl, hfits, rfl⟩
  · refine Or.inr ⟨(hlocate _).2 ⟨hc, ?_⟩, hn.enclosing⟩
    rw [walk_dot hn.enclosing, walk_nil]
  · refine Or.inr ⟨(hlocate _).2 ⟨hc, ?_⟩, ?_⟩
    · rw [walk_up hn.enclosing, walk_nil]
    · cases d with
      | nil => exact hn.enclosing
      | cons n d => exact get?_enclosing hn.enclosing
  · exact Or.inl (hn.site?_eq_some_iff.2 ⟨hc, n, rfl, hfits, rfl⟩)

theorem get?_eq_none (hn : Names fs q d s) (hfree : ∀ e, fs.lstat dir q ≠ .ok e)
    (hl : fs.site? dir q = some l) : fs.get? l = none := by
  have hlstat := lstat_of_site hl hn.noSlash
  cases he : fs.get? l with
  | none => rfl
  | some e =>
    rw [he] at hlstat
    exact absurd hlstat (hfree e)

/-- Where nothing can be looked at under the path, it leads only to its site, whatever is added. -/
theorem site?_of_locate (hn : Names fs q d s) (hfree : ∀ e, fs.lstat dir q ≠ .ok e)
    (hw : fs.Within fs') (hr : fs'.locate dir false q = .ok r) : fs.site? dir q = some r := by
  rcases hn.of_locate hw hr with hs | ⟨hlocate, hdir⟩
  · exact hs
  · exact absurd (lstat_eq_ok_iff.2 ⟨r, hlocate, hdir⟩) (hfree _)

variable {a : FileSystem} {d' k : Location} {p : Path} {s' : Path.Segment}

/-- Entries of a directory are not above entries called otherwise there or further up. -/
theorem not_suffix (hq : Names fs q d s) (hp : Names fs p d' s') (hd : d' <:+ d)
    (hdot : s ≠ [dot]) (hup : s ≠ Path.up) (hdot' : s' ≠ [dot]) (hne : s' ≠ s)
    (hk : fs.locate dir false q = .ok k) (hr : fs.locate dir false p = .ok r) : ¬ k <:+ r := by
  have hlength := hd.length_le
  rcases hq.cases_of_locate hk with ⟨h, -⟩ | ⟨h, -⟩ | ⟨n, rfl, -, rfl⟩
  · exact absurd h hdot
  · exact absurd h hup
  intro hsuffix
  have hlong := hsuffix.length_le
  rw [List.length_cons] at hlong
  rcases hp.cases_of_locate hr with ⟨h, -⟩ | ⟨-, rfl⟩ | ⟨n', rfl, -, rfl⟩
  · exact hdot' h
  · rw [List.length_tail] at hlong
    omega
  · rw [List.length_cons] at hlong
    have heq := hsuffix.eq_of_length (by simp only [List.length_cons]; omega)
    exact hne (congrArg Name.bytes (List.cons.inj heq).1.symm)

/-- A path that names an entry leads to it as long as its directory and the entry are there. -/
theorem locate_of_isSome (hn : Names a q d s) (hn' : Names fs q d s)
    (hr : fs.locate dir false q = .ok r) (hsome : (a.get? r).isSome) :
    a.locate dir false q = .ok r := by
  obtain ⟨left, hlocate⟩ := hn.locate_iff dir
  refine (hlocate r).2 ⟨check_of_locate hr, ?_⟩
  rcases hn'.cases_of_locate hr with ⟨rfl, rfl⟩ | ⟨rfl, rfl⟩ | ⟨n, rfl, hfits, rfl⟩
  · rw [walk_dot hn.enclosing, walk_nil]
  · rw [walk_up hn.enclosing, walk_nil]
  · have hhere : a.Leads true left d [] d := .done
    exact walk_eq_ok_iff.2 ((leads_append_name hhere hn.enclosing).2 ⟨rfl, hfits, hsome⟩)

end Names

namespace Host
variable {h : Host} {p q : Path}

/-- The machine makes a path absolute by its text alone, once it knows its directory. -/
theorem run_absolute_ok (hq : (h.run (absolute p)).1 = .ok q) :
    p.absolute h.directory.path = .ok q := by
  unfold absolute at hq
  split at hq
  · cases hq
  split at hq
  · next hne habs =>
    have hsame : p.absolute h.directory.path = p.absolute ⟨[slash]⟩ := by
      rw [Path.absolute_eq_spelled hne, Path.absolute_eq_spelled hne, habs]
      rfl
    exact hsame.trans hq
  · rw [run_bind, currentDirectory, run_bind, run_get] at hq
    dsimp only at hq
    split at hq
    · exact hq
    · cases hq

theorem run_absolute_of_isAbsolute {d : Path} (hp : p.isAbsolute = true)
    (hq : p.absolute d = .ok q) : (h.run (absolute p)).1 = .ok q := by
  have hne : p.text ≠ [] := by
    intro hnil
    rw [Path.isAbsolute, hnil] at hp
    cases hp
  rw [Path.absolute_eq_spelled hne, hp] at hq
  unfold absolute
  rw [if_neg hne, if_pos hp, Path.absolute_eq_spelled hne, hp]
  exact hq

end Host

namespace Input
variable {fs : FileSystem} {dir : Location} {t : Input}

/-- The input stands where it is said to be, under an absolute path without idle words, and is the
file or directory that it is said to be. -/
structure Stands (fs : FileSystem) (dir : Location) (t : Input) : Prop where
  regular : t.path.Regular
  found : ∃ l e, fs.locate dir true t.path = .ok l ∧ fs.get? l = some e ∧ e.isDirectory = t.isDirectory

/-- The machine spells a path out from the directory that it works in. -/
theorem canonical_of_run_absolute {p q : Path} {h : Host}
    (hq : (h.run (Host.absolute p)).1 = .ok q) : q.Canonical :=
  Path.canonical_of_absolute (Host.run_absolute_ok hq)

theorem run_absolute_of_canonical {p : Path} {h : Host} (hp : p.Canonical) :
    (h.run (Host.absolute p)).1 = .ok p :=
  Host.run_absolute_of_isAbsolute hp.regular.isAbsolute (hp.absolute_eq p)

theorem regular_of_run_absolute {p q : Path} {h : Host} (hq : (h.run (Host.absolute p)).1 = .ok q) :
    q.Regular :=
  (canonical_of_run_absolute hq).regular

theorem mem_of_run_absolute {p q : Path} {h : Host} {c : UInt8} (hp : p.isAbsolute = true)
    (hq : (h.run (Host.absolute p)).1 = .ok q) (hc : c ∈ q.text) : c = slash ∨ c ∈ p.text := by
  unfold Host.absolute at hq
  rw [if_pos hp] at hq
  split at hq
  · cases hq
  · exact Path.mem_of_mem_absolute hp hq hc

theorem ofEntry_eq_ok {p : Path} {e : Entry} (h : ofEntry p e = .ok t) :
    t.path = p ∧ t.isDirectory = e.isDirectory ∧ (t.isDirectory = false → t.compiled ≠ p) := by
  unfold ofEntry at h
  split at h
  · next hdir =>
    split at h
    · cases h
    · obtain rfl := Except.ok.inj h
      refine ⟨rfl, hdir.symm, fun hfile => ?_⟩
      cases hfile
  · next hdir =>
    split at h
    · cases h
    · next hne =>
      obtain rfl := Except.ok.inj h
      exact ⟨rfl, (Bool.eq_false_iff.2 hdir).symm, fun _ => hne⟩

theorem run_resolve {typed p : Path} {e : Entry} {h : Host}
    (hp : (h.run (Host.absolute typed.withoutTrailingQuote)).1 = .ok p)
    (he : (h.run (Host.stat p)).1 = .ok e) :
    h.run (resolve typed) = (ofEntry p e, h.counted) := by
  rw [resolve, Host.run_bind, Host.run_absolute_snd, hp]
  dsimp only
  rw [Host.run_bind, Host.run_stat_snd, he]
  rfl

theorem run_resolve_file {p : Path} {content : Bytes} {x : Bool} {h : Host}
    (hquote : p.withoutTrailingQuote = p) (hp : (h.run (Host.absolute p)).1 = .ok p)
    (hfile : (h.run (Host.stat p)).1 = .ok (.file content x)) (hne : p.compiledFile ≠ p) :
    h.run (resolve p) = (.ok (.sourceFile p), h.counted) := by
  have hnot : ¬ (Entry.file content x).isDirectory = true := by simp [Entry.isDirectory]
  rw [run_resolve (hquote.symm ▸ hp) hfile, ofEntry, if_neg hnot, if_neg hne]

theorem run_resolve_directory {p : Path} {h : Host} (hquote : p.withoutTrailingQuote = p)
    (hp : (h.run (Host.absolute p)).1 = .ok p) (hdir : (h.run (Host.stat p)).1 = .ok .directory)
    (hspace : 0x20 ∉ p.text) : h.run (resolve p) = (.ok (.sourceDirectory p), h.counted) := by
  have hdirectory : Entry.directory.isDirectory = true := rfl
  have hshown : ' ' ∉ Text.decodeLossy p.text := by
    rwa [Text.mem_decodeLossy_iff (by decide)]
  rw [run_resolve (hquote.symm ▸ hp) hdir, ofEntry, if_pos hdirectory, if_neg hshown]

theorem resolve_eq_ok {typed : Path} {h h' : Host} (hok : h.run (resolve typed) = (.ok t, h')) :
    ∃ p e, (h.run (Host.absolute typed.withoutTrailingQuote)).1 = .ok p ∧
      (h.run (Host.stat p)).1 = .ok e ∧ ofEntry p e = .ok t ∧ h' = h.counted := by
  rw [resolve, Host.run_bind, Host.run_absolute_snd] at hok
  cases hp : (h.run (Host.absolute typed.withoutTrailingQuote)).1 with
  | error e =>
    rw [hp] at hok
    cases ((Prod.mk.inj hok).1)
  | ok p =>
    rw [hp] at hok
    dsimp only at hok
    rw [Host.run_bind, Host.run_stat_snd] at hok
    cases he : (h.run (Host.stat p)).1 with
    | error e =>
      rw [he] at hok
      cases ((Prod.mk.inj hok).1)
    | ok e =>
      rw [he] at hok
      obtain ⟨hentry, rfl⟩ := Prod.mk.inj hok
      exact ⟨p, e, rfl, he, hentry, rfl⟩

/-- An input that is accepted stands where it is said to be; a file is not its own class file. -/
theorem resolve_ok {typed : Path} {h h' : Host} (hok : h.run (resolve typed) = (.ok t, h')) :
    h' = h.counted ∧ t.Stands h.files h.directory ∧ (t.isDirectory = false → t.compiled ≠ t.path) := by
  obtain ⟨p, e, hp, he, hentry, rfl⟩ := resolve_eq_ok hok
  obtain ⟨rfl, hdir, hne⟩ := ofEntry_eq_ok hentry
  obtain ⟨l, hl, hle⟩ := Host.run_stat_ok he
  exact ⟨rfl, ⟨regular_of_run_absolute hp, l, e, hl, hle, hdir.symm⟩, hne⟩

theorem space_notMem_of_resolve {typed p : Path} {h h' : Host}
    (hok : h.run (resolve typed) = (.ok (.sourceDirectory p), h')) : ' ' ∉ Text.decodeLossy p.text := by
  obtain ⟨q, e, -, -, hentry, -⟩ := resolve_eq_ok hok
  obtain ⟨rfl, hdirectory, -⟩ := ofEntry_eq_ok hentry
  have hdir : e.isDirectory = true := hdirectory.symm
  intro hspace
  rw [ofEntry, if_pos hdir, path, if_pos hspace] at hentry
  cases hentry

/-! ## The places of a conversion -/

theorem names_join {p : Path} {d : Location} {name : Path.Segment} (hp : p.isAbsolute = true)
    (hleads : fs.Leads true linkLimit [] p.words d) (hd : fs.get? d = some .directory)
    (hslash : slash ∉ name) (hne : name ≠ []) : Names fs (p.join ⟨name⟩) d name where
  isAbsolute := Path.isAbsolute_join hp hslash
  noSlash := Path.endsWithSlash_join hslash hne
  leads := ⟨p.words, Path.words_join hslash hne, hleads⟩
  enclosing := hd

/-- What the path of compiled classes can end in. -/
def IsCompiledName (s : Path.Segment) : Prop :=
  s = Path.up ∨ dot :: OsString.ofString classExtension <:+ s ∨ OsString.ofString compiledSuffix <:+ s

theorem IsCompiledName.ne {s s' : Path.Segment} (hs : IsCompiledName s) (hup : s' ≠ Path.up)
    (hclass : ¬ dot :: OsString.ofString classExtension <:+ s') (hsuffix : ¬ OsString.ofString compiledSuffix <:+ s') :
    s ≠ s' := by
  rintro rfl
  rcases hs with h | h | h
  · exact hup h
  · exact hclass h
  · exact hsuffix h

namespace Stands

theorem start (hs : t.Stands fs dir) : t.path.start dir = [] := by
  rw [Path.start, if_pos hs.regular.isAbsolute]

theorem leads_before {before : List Path.Segment} {s : Path.Segment} (hs : t.Stands fs dir)
    (hw : t.path.words = before ++ [s]) :
    ∃ d, fs.Leads true linkLimit [] before d ∧ fs.get? d = some .directory := by
  obtain ⟨l, e, hl, -⟩ := hs.found
  have hleads := (locate_eq_ok_iff.1 hl).2
  rw [hs.start, Path.steps_eq, hw, List.append_assoc] at hleads
  exact hleads.of_append (by simp)

theorem directory_words {before : List Path.Segment} {s : Path.Segment} (hs : t.Stands fs dir)
    (hw : t.path.words = before ++ [s]) :
    t.directory.words = before ∧ t.directory.isAbsolute = true := by
  obtain ⟨p, hp, hpw, hpa⟩ := Path.parent_of_words hs.regular hw
  rw [directory, hp]
  exact ⟨hpw, hpa⟩

theorem directory_words_nil (hs : t.Stands fs dir) (hw : t.path.words = []) :
    t.directory.words = [] ∧ t.directory.isAbsolute = true := by
  rw [directory, Path.parent_of_words_nil hs.regular hw]
  exact ⟨hw, hs.regular.isAbsolute⟩

theorem leads_directory (hs : t.Stands fs dir) :
    ∃ d, fs.Leads true linkLimit [] t.directory.words d ∧ fs.get? d = some .directory := by
  rcases List.eq_nil_or_concat t.path.words with hw | ⟨before, s, hw⟩
  · rw [(hs.directory_words_nil hw).1]
    exact ⟨[], .done, get?_nil fs⟩
  · rw [List.concat_eq_append] at hw
    rw [(hs.directory_words hw).1]
    exact hs.leads_before hw

theorem isAbsolute_directory (hs : t.Stands fs dir) : t.directory.isAbsolute = true := by
  rcases List.eq_nil_or_concat t.path.words with hw | ⟨before, s, hw⟩
  · exact (hs.directory_words_nil hw).2
  · exact (hs.directory_words (List.concat_eq_append ▸ hw)).2

/-- What leads upwards from a directory leads to the one around it. -/
theorem leads_append_up {before : List Path.Segment} {d : Location}
    (hd : fs.Leads true linkLimit [] before d) (hdir : fs.get? d = some .directory) :
    fs.Leads true linkLimit [] (before ++ [Path.up]) d.tail ∧
      fs.get? d.tail = some .directory := by
  obtain ⟨left, -, heq⟩ := hd.append (by simp [hdir])
  refine ⟨?_, ?_⟩
  · rw [← walk_eq_ok_iff, heq _ _ (by simp), walk_up hdir, walk_nil]
  · cases d with
    | nil => exact hdir
    | cons n d => exact get?_enclosing hdir

theorem last_of_file (hs : t.Stands fs dir) (ht : t.isDirectory = false) :
    t.path.endsWithSlash = false ∧
      ∃ before s, t.path.words = before ++ [s] ∧ s ≠ Path.up := by
  obtain ⟨l, e, hl, hle, he⟩ := hs.found
  have hnot : fs.get? l ≠ some .directory := by
    rw [hle]
    rintro hdir
    rw [Option.some.inj hdir, ht] at he
    cases he
  obtain ⟨-, hleads⟩ := locate_eq_ok_iff.1 hl
  rw [hs.start, Path.steps_eq] at hleads
  have hslash : t.path.endsWithSlash = false := by
    cases hslash : t.path.endsWithSlash with
    | false => rfl
    | true =>
      rw [hslash, if_pos rfl] at hleads
      exact absurd (leads_append_dot.1 hleads).2 hnot
  rw [hslash] at hleads
  simp only [Bool.false_eq_true, if_false, List.append_nil] at hleads
  refine ⟨hslash, ?_⟩
  rcases List.eq_nil_or_concat t.path.words with hw | ⟨before, s, hw⟩
  · rw [hw, ← walk_eq_ok_iff, walk_nil] at hleads
    obtain rfl := Except.ok.inj hleads
    exact absurd (get?_nil fs) hnot
  · rw [List.concat_eq_append] at hw
    refine ⟨before, s, hw, ?_⟩
    rintro rfl
    obtain ⟨d, hd, hdir⟩ := hs.leads_before hw
    rw [hw] at hleads
    obtain ⟨hup, htail⟩ := leads_append_up hd hdir
    exact hnot (hleads.unique hup ▸ htail)

/-- The path of the compiled classes ends in a word of its own.  The words before are those of the
directory, or all words of the input if they lead upwards. -/
theorem words_compiled (hs : t.Stands fs dir) :
    t.compiled.isAbsolute = true ∧ t.compiled.endsWithSlash = false ∧
      ∃ before s, t.compiled.words = before ++ [s] ∧ IsCompiledName s ∧
        (t.directory.words = before ∨ before = t.path.words ∧
          (t.path.words = [] ∨ ∃ above, t.path.words = above ++ [Path.up])) := by
  cases t with
  | sourceFile p =>
    have hregular : p.Regular := hs.regular
    obtain ⟨hslash, before, s, hw, hup⟩ := hs.last_of_file rfl
    obtain ⟨hw', hslash', habs, -⟩ := Path.compiledFile_spec hregular hslash hw hup
    refine ⟨habs, hslash', before, _, hw', ?_, Or.inl (hs.directory_words hw).1⟩
    rcases Path.className_cases s with hname | ⟨stem, hname⟩
    · exact Or.inl hname
    · exact Or.inr (Or.inl (hname ▸ List.suffix_append stem _))
  | sourceDirectory p =>
    have hregular : p.Regular := hs.regular
    obtain ⟨before, name, hw, hbefore, hslash, habs⟩ := Path.compiledDirectory_spec hregular
    refine ⟨habs, hslash, before, _, hw, Or.inr (Or.inr (List.suffix_append name _)), ?_⟩
    rcases hbefore with ⟨s, -, hpw⟩ | ⟨hall, hpw⟩
    · exact Or.inl (hs.directory_words hpw).1
    · exact Or.inr ⟨hall, hpw⟩

theorem names_compiled {b : FileSystem} {d : Location} (hs : t.Stands fs dir)
    (hleads : b.Leads true linkLimit [] t.directory.words d) (hd : b.get? d = some .directory) :
    ∃ d' s, d' <:+ d ∧ Names b t.compiled d' s ∧ IsCompiledName s := by
  obtain ⟨habs, hslash, before, s, hw, hname, hbefore⟩ := hs.words_compiled
  have hnames {d' : Location} (hleads' : b.Leads true linkLimit [] before d')
      (hd' : b.get? d' = some .directory) : Names b t.compiled d' s :=
    ⟨habs, hslash, ⟨before, hw, hleads'⟩, hd'⟩
  rcases hbefore with hwords | ⟨rfl, hnil | ⟨above, hup⟩⟩
  · exact ⟨d, s, List.suffix_refl d, hnames (hwords ▸ hleads) hd, hname⟩
  · exact ⟨[], s, List.nil_suffix, hnames (hnil ▸ .done) (get?_nil b), hname⟩
  · rw [(hs.directory_words hup).1] at hleads
    obtain ⟨hleads', hd'⟩ := leads_append_up hleads hd
    exact ⟨d.tail, s, List.tail_suffix d, hnames (hup ▸ hleads') hd', hname⟩

/-- Wherever the words of an input but the last lead, there are the output and the artifacts, if the last
one is a name. -/
theorem names_beside {b : FileSystem} {d : Location} {before : List Path.Segment} {s : Path.Segment}
    (hs : t.Stands fs dir) (hw : t.path.words = before ++ [s]) (hup : s ≠ Path.up)
    (hleads : b.Leads true linkLimit [] before d) (hd : b.get? d = some .directory) :
    Names b t.workspace.output d (OsString.ofString outputName) ∧
      ∀ q ∈ t.workspace.artifacts t.compiled, ∃ s', q.words = before ++ [s'] ∧ Names b q d s' ∧
        s' ≠ [dot] ∧ s' ≠ OsString.ofString outputName := by
  obtain ⟨hwords, habs⟩ := hs.directory_words hw
  have hfixed (name : String) (hn : slash ∉ OsString.ofString name ∧ OsString.ofString name ≠ []) :
      (t.directory.join (.ofString name)).words = before ++ [OsString.ofString name] ∧
        Names b (t.directory.join (.ofString name)) d (OsString.ofString name) :=
    ⟨hwords ▸ Path.words_join hn.1 hn.2, names_join habs (hwords ▸ hleads) hd hn.1 hn.2⟩
  refine ⟨(hfixed outputName (by decide)).2, fun q hq => ?_⟩
  simp only [Workspace.artifacts, List.mem_cons, List.not_mem_nil, or_false] at hq
  rcases hq with rfl | rfl | rfl
  · obtain ⟨hwords', hnames⟩ := hfixed manifestName (by decide)
    exact ⟨_, hwords', hnames, by decide, by decide⟩
  · obtain ⟨hwords', hnames⟩ := hfixed bundleName (by decide)
    exact ⟨_, hwords', hnames, by decide, by decide⟩
  · obtain ⟨habs', hslash', before', s', hw', hname, hbefore⟩ := hs.words_compiled
    rcases hbefore with rfl | ⟨-, hnil | ⟨above, habove⟩⟩
    · rw [hwords] at hw'
      exact ⟨s', hw', ⟨habs', hslash', ⟨before, hw', hleads⟩, hd⟩,
        hname.ne (by decide) (by decide) (by decide), hname.ne (by decide) (by decide) (by decide)⟩
    · rw [hnil] at hw
      cases (List.append_eq_nil_iff.1 hw.symm).2
    · obtain ⟨-, hlast⟩ := List.append_inj' (hw.symm.trans habove) rfl
      exact absurd (List.singleton_inj.1 hlast) hup

/-- Wherever the words of the directory lead, the fixed names are those of entries there, and the
compiled classes stand there or further up. -/
theorem names_of_leads {b : FileSystem} {d : Location} (hs : t.Stands fs dir)
    (hleads : b.Leads true linkLimit [] t.directory.words d) (hd : b.get? d = some .directory) :
    Names b t.workspace.manifest d (OsString.ofString manifestName) ∧
      Names b t.workspace.bundle d (OsString.ofString bundleName) ∧
      Names b t.workspace.output d (OsString.ofString outputName) ∧
      ∃ d' s, d' <:+ d ∧ Names b t.compiled d' s ∧ IsCompiledName s := by
  have hname (name : String) (hn : slash ∉ OsString.ofString name ∧ OsString.ofString name ≠ []) :
      Names b (t.directory.join (.ofString name)) d (OsString.ofString name) :=
    names_join hs.isAbsolute_directory hleads hd hn.1 hn.2
  exact ⟨hname manifestName (by decide), hname bundleName (by decide),
    hname outputName (by decide), hs.names_compiled hleads hd⟩

theorem names (hs : t.Stands fs dir) : ∃ d, Names fs t.workspace.manifest d (OsString.ofString manifestName) ∧
    Names fs t.workspace.bundle d (OsString.ofString bundleName) ∧
    Names fs t.workspace.output d (OsString.ofString outputName) ∧
    ∃ d' s, d' <:+ d ∧ Names fs t.compiled d' s ∧ IsCompiledName s := by
  obtain ⟨d, hleads, hd⟩ := hs.leads_directory
  exact ⟨d, hs.names_of_leads hleads hd⟩

/-- The output and the artifacts stand in one directory, the classes perhaps further up. -/
theorem names_artifacts (hs : t.Stands fs dir) :
    ∃ d, Names fs t.workspace.output d (OsString.ofString outputName) ∧
      ∀ q ∈ t.workspace.artifacts t.compiled,
        ∃ d' s, d' <:+ d ∧ Names fs q d' s ∧ s ≠ OsString.ofString outputName := by
  obtain ⟨d, hmanifest, hbundle, houtput, hcompiled⟩ := hs.names
  refine ⟨d, houtput, fun q hq => ?_⟩
  simp only [Workspace.artifacts, List.mem_cons, List.not_mem_nil, or_false] at hq
  rcases hq with rfl | rfl | rfl
  · exact ⟨d, _, List.suffix_refl d, hmanifest, by decide⟩
  · exact ⟨d, _, List.suffix_refl d, hbundle, by decide⟩
  · obtain ⟨d', s, hsuffix, hn, hname⟩ := hcompiled
    exact ⟨d', s, hsuffix, hn, hname.ne (by decide) (by decide) (by decide)⟩

variable {a b : FileSystem} {r : Location} {p : Path} {e : Entry}

theorem pairwise_artifacts (hs : t.Stands fs dir) :
    (t.workspace.artifacts t.compiled).Pairwise fun q p => ∀ k r,
      fs.locate dir false q = .ok k → fs.locate dir false p = .ok r → ¬ k <:+ r := by
  obtain ⟨d, hmanifest, hbundle, -, d', s, hd, hcompiled, hname⟩ := hs.names
  have hdot : s ≠ [dot] := hname.ne (by decide) (by decide) (by decide)
  simp only [Workspace.artifacts, List.pairwise_cons, List.mem_cons, List.not_mem_nil, or_false]
  refine ⟨?_, ?_, by simp⟩
  · rintro p (rfl | rfl) k r
    · exact hmanifest.not_suffix hbundle (List.suffix_refl d) (by decide) (by decide) (by decide)
        (by decide)
    · exact hmanifest.not_suffix hcompiled hd (by decide) (by decide) hdot
        (hname.ne (by decide) (by decide) (by decide))
  · rintro p rfl k r
    exact hbundle.not_suffix hcompiled hd (by decide) (by decide) hdot
      (hname.ne (by decide) (by decide) (by decide))

/-- While the directory of the conversion can be found, an artifact that is still there is found under
its path. -/
theorem locate_artifact (hs : t.Stands fs dir) (hb : b.Within fs)
    (hdirectory : b.stat dir t.directory = .ok e) (hp : p ∈ t.workspace.artifacts t.compiled)
    (hr : fs.locate dir false p = .ok r) (ha : b.Within a) (hsome : (a.get? r).isSome) :
    a.locate dir false p = .ok r := by
  obtain ⟨l, hl, hle⟩ := stat_eq_ok_iff.1 hdirectory
  obtain ⟨d, hd, hdir⟩ := hs.leads_directory
  have hleads := (locate_eq_ok_iff.1 hl).2
  rw [Path.start, if_pos hs.isAbsolute_directory, Path.steps_eq] at hleads
  have hwords : b.Leads true linkLimit [] t.directory.words l := by
    split at hleads
    · exact (leads_append_dot.1 hleads).1
    · rwa [List.append_nil] at hleads
  obtain rfl := (hwords.mono hb).unique hd
  have hbdir : b.get? l = some .directory := by
    have houtline := hb l e hle
    rw [hdir] at houtline
    rw [hle, Entry.outline_eq_directory.1 (Option.some.inj houtline).symm]
  obtain ⟨hmanifest, hbundle, -, d', s, -, hcompiled, -⟩ := hs.names_of_leads hwords hbdir
  have hnames : ∃ d s, Names b p d s := by
    simp only [Workspace.artifacts, List.mem_cons, List.not_mem_nil, or_false] at hp
    rcases hp with rfl | rfl | rfl
    · exact ⟨_, _, hmanifest⟩
    · exact ⟨_, _, hbundle⟩
    · exact ⟨_, _, hcompiled⟩
  obtain ⟨d, s, hn⟩ := hnames
  exact (hn.mono ha).locate_of_isSome (hn.mono hb) hr hsome

end Stands
end Input
end SmaliBuild
