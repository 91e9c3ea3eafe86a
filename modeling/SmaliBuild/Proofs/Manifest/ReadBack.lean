import SmaliBuild.Proofs.Input.Places
import SmaliBuild.Proofs.Manifest.Walk
/-!
# Reading a manifest back

A compiler takes the content of a manifest for a list of names between blanks and knows no quotes.
Each line then gives the words of its path as it is shown (`Manifest.read_back`), so the names are the
paths exactly if these are text without blanks.  A directory with a space in its path is refused, so a
space can only come from a name below the directory.  Such names are not refused, nor are names that
are no text, and then the manifest names other files.
-/
namespace SmaliBuild

/-! ## The manifest -/

namespace Manifest
open FileSystem Host
variable {h₀ h h' : Host} {m : Manifest} {p root path typed : Path}

theorem text_ne_nil_of_below {d : Path} {n : Name} {ns : List Name}
    (hp : p = (d.entry n.bytes).below ns) : p.text ≠ [] := by
  intro ht
  have hwords : p.words = [] := by
    rw [Path.words, ht]
    rfl
  rw [hp, Path.words_below, Path.words_entry] at hwords
  simp at hwords

theorem read_back (blank : Char → Bool) (hline : blank '\n' = true)
    (hbuild : h.run (build root path) = (.ok m, h')) (hskipped : m.skipped = []) :
    ∃ bytes text, h'.files.read h'.directory path = .ok bytes ∧ Text.decode? bytes = some text ∧
      Text.words blank text =
        m.entries.flatMap (fun p => Text.words blank (Text.decodeLossy p.text)) ∧
      ((Text.words blank text).map Text.encode = m.entries.map (·.text) ↔
        ∀ p ∈ m.entries, Text.isText p.text = true ∧
          ∀ c ∈ Text.decodeLossy p.text, blank c = false) := by
  obtain ⟨r, -, -, hbelow, hread⟩ := build_written hbuild hskipped
  have hne : ∀ p ∈ m.entries, p.text ≠ [] := by
    intro p hp
    obtain ⟨n, ns, hns⟩ := hbelow p hp
    exact text_ne_nil_of_below hns
  obtain ⟨text, hwords⟩ := words_lines_iff hline hne
  exact ⟨_, text, hread, hwords⟩

/-! ## A directory with one file -/

/-- A manifest that is put into its own directory, which holds no directories, has a line for each entry
and one for itself. -/
theorem build_flat {r : Path} {d : Location} {k : Name} (hsound : ∀ i, h.faults i = none)
    (hroot : (h.run (Host.absolute root)).1 = .ok r)
    (hr : h.files.locate h.directory true r = .ok d) (hd : h.files.get? d = some .directory)
    (hflat : ∀ n, (h.files.get? (n :: d)).isSome → ∃ l content x,
      h.files.locate h.directory true (r.entry n.bytes) = .ok l ∧
        h.files.get? l = some (.file content x))
    (hsite : h.files.site? h.directory (r.entry k.bytes) = some (k :: d))
    (hfree : h.files.get? (k :: d) = none) :
    ∃ m h', h.run (build root (r.entry k.bytes)) = (.ok m, h') ∧ m.skipped = [] ∧
      ∀ p, p ∈ m.entries ↔ ∃ n, (n = k ∨ (h.files.get? (n :: d)).isSome) ∧ p = r.entry n.bytes := by
  have hslash := Path.endsWithSlash_entry r k
  obtain ⟨m, h', hbuild, hskipped, hquiet⟩ := exists_build_whole hsound hsite hfree hslash hroot
    (isDirectory_iff.2 ⟨d, hr, hd⟩)
  obtain ⟨-, hsteady, hget⟩ := recreated_of_free hsound hsite hfree hslash
  have hwithin := within_of_free hfree hget
  refine ⟨m, h', hbuild, hskipped, fun p => ?_⟩
  rw [build_listed hbuild hskipped hroot hquiet, hsteady.directory]
  generalize (recreated (r.entry k.bytes) h).files = made at hget hwithin ⊢
  have hentry (n : Name) :
      (made.get? (n :: d)).isSome ↔ n = k ∨ (h.files.get? (n :: d)).isSome := by
    rw [hget]
    split
    · next heq => simp [(List.cons.inj heq).1]
    · next hne =>
      have hnk : n ≠ k := fun heq => hne (by rw [heq])
      simp [hnk]
  rw [below_iff_of_flat (locate_mono hwithin hr) (hwithin.directory hd)]
  · simp only [hentry]
  · intro n hn
    rcases (hentry n).1 hn with rfl | hn
    · have hmade := (hget (n :: d)).trans (if_pos rfl)
      exact isDirectory_of_locate
        (locate_of_site_plain (site?_mono hwithin hsite) hslash hmade (by simp)) hmade
    · obtain ⟨l, content, x, hl, hfile⟩ := hflat n hn
      obtain ⟨content, x, hfile⟩ := hwithin.file hfile
      exact isDirectory_of_locate (locate_mono hwithin hl) hfile

/-- The directory `sharingRoot` with the file `n` in it. -/
def soloFiles (n : Name) : FileSystem where
  entries := [([sharingDirectory], .directory), ([n, sharingDirectory], .file [] false)]
  unique := by simp
  rooted := by simp

theorem get?_soloFiles (n k : Name) : (soloFiles n).get? [k, sharingDirectory] =
    if k = n then some (.file [] false) else none := by
  by_cases hk : k = n
  · subst hk
    simp [FileSystem.get?, soloFiles, List.lookup]
  · simp [FileSystem.get?, soloFiles, hk]

theorem resolve_solo (n : Name) :
    (Host.sound (soloFiles n) []).run (Input.resolve sharingRoot) =
      (.ok (.sourceDirectory sharingRoot), (Host.sound (soloFiles n) []).counted) := by
  have hroot : ((Host.sound (soloFiles n) []).run (Host.absolute sharingRoot)).1 =
      .ok sharingRoot := by cbv
  have hdirectory : ((Host.sound (soloFiles n) []).run (Host.stat sharingRoot)).1 =
      .ok .directory := by cbv
  exact Input.run_resolve_directory (by cbv) hroot hdirectory (by decide)

theorem build_solo {n : Name} (hne : n ≠ sharingEntry)
    (hlocate : (soloFiles n).locate [] true (sharingRoot.entry n.bytes) =
      .ok [n, sharingDirectory]) :
    ∃ m h', (Host.sound (soloFiles n) []).counted.run (build sharingRoot sharingManifest) =
        (.ok m, h') ∧ m.skipped = [] ∧
      ∀ p, p ∈ m.entries ↔ p = sharingManifest ∨ p = sharingRoot.entry n.bytes := by
  have hroot : ((Host.sound (soloFiles n) []).counted.run (Host.absolute sharingRoot)).1 =
      .ok sharingRoot := by cbv
  have hstart : (soloFiles n).locate [] true sharingRoot = .ok [sharingDirectory] := by cbv
  have hsite : (soloFiles n).site? [] (sharingRoot.entry sharingEntry.bytes) =
      some [sharingEntry, sharingDirectory] := by cbv
  have hspelled : sharingRoot.entry sharingEntry.bytes = sharingManifest := by cbv
  have hisSome (k : Name) : ((soloFiles n).get? [k, sharingDirectory]).isSome ↔ k = n := by
    rw [get?_soloFiles]
    split <;> simp_all
  have hflat (k : Name) (hk : ((soloFiles n).get? [k, sharingDirectory]).isSome) :
      ∃ l content x, (soloFiles n).locate [] true (sharingRoot.entry k.bytes) = .ok l ∧
        (soloFiles n).get? l = some (.file content x) := by
    obtain rfl := (hisSome k).1 hk
    exact ⟨_, [], false, hlocate, (get?_soloFiles k k).trans (if_pos rfl)⟩
  obtain ⟨m, h', hbuild, hskipped, hentries⟩ := build_flat
    (h := (Host.sound (soloFiles n) []).counted) (fun _ => rfl) hroot hstart rfl hflat hsite
    ((get?_soloFiles n sharingEntry).trans (if_neg hne.symm))
  rw [hspelled] at hbuild
  refine ⟨m, h', hbuild, hskipped, fun p => (hentries p).trans ?_⟩
  change (∃ k, (k = sharingEntry ∨ ((soloFiles n).get? [k, sharingDirectory]).isSome) ∧
    p = sharingRoot.entry k.bytes) ↔ _
  simp only [hisSome, or_and_right, exists_or, exists_eq_left, hspelled]

/-! ## Accepted directories -/

/-- The manifest of a directory that was accepted, if nothing was skipped, is a text whose words are
those of its paths as they are shown, path after path.  The words are the paths exactly if each path is
text and has no blank.  What the root gives to each path has no space. -/
theorem build_read_back (blank : Char → Bool) (hline : blank '\n' = true)
    (hresolve : (h₀.run (Input.resolve typed)).1 = .ok (.sourceDirectory root))
    (hbuild : h.run (build root path) = (.ok m, h')) (hskipped : m.skipped = []) :
    ∃ r bytes text, (h.run (Host.absolute root)).1 = .ok r ∧ ' ' ∉ Text.decodeLossy r.text ∧
      (∀ p ∈ m.entries, ∃ (n : Name) (ns : List Name), p = (r.entry n.bytes).below ns) ∧
      h'.files.read h'.directory path = .ok bytes ∧ Text.decode? bytes = some text ∧
      Text.words blank text =
        m.entries.flatMap (fun p => Text.words blank (Text.decodeLossy p.text)) ∧
      ((Text.words blank text).map Text.encode = m.entries.map (·.text) ↔
        ∀ p ∈ m.entries, Text.isText p.text = true ∧
          ∀ c ∈ Text.decodeLossy p.text, blank c = false) := by
  have haccepted : h₀.run (Input.resolve typed) =
      (.ok (.sourceDirectory root), (h₀.run (Input.resolve typed)).2) :=
    Prod.ext hresolve rfl
  obtain ⟨-, hstands, -⟩ := Input.resolve_ok haccepted
  have hspace := Input.space_notMem_of_resolve haccepted
  obtain ⟨r, hr, -, hbelow, -⟩ := build_written hbuild hskipped
  obtain ⟨bytes, text, hread, htext, hwords⟩ := read_back blank hline hbuild hskipped
  refine ⟨r, bytes, text, hr, fun hmem => ?_, hbelow, hread, htext, hwords⟩
  have hascii : ' '.toNat < 0x80 := by decide
  rw [Text.mem_decodeLossy_iff hascii] at hmem hspace
  rcases Input.mem_of_run_absolute hstands.regular.isAbsolute hr hmem with hslash | hmem
  · exact absurd hslash (by decide)
  · exact hspace hmem

/-- A file with a plain name is read back. -/
theorem build_read_back_plain :
    ∃ m h' bytes text, ((Host.sound (soloFiles sharedFile) []).run (Input.resolve sharingRoot)).1 =
        .ok (.sourceDirectory sharingRoot) ∧
      (Host.sound (soloFiles sharedFile) []).counted.run (build sharingRoot sharingManifest) =
        (.ok m, h') ∧ m.skipped = [] ∧
      h'.files.read h'.directory sharingManifest = .ok bytes ∧ Text.decode? bytes = some text ∧
      (Text.words Text.isBlank text).map Text.encode = m.entries.map (·.text) := by
  have hlocate : (soloFiles sharedFile).locate [] true (sharingRoot.entry sharedFile.bytes) =
      .ok [sharedFile, sharingDirectory] := by cbv
  have hresolve := congrArg Prod.fst (resolve_solo sharedFile)
  obtain ⟨m, h', hbuild, hskipped, hentries⟩ := build_solo (by decide) hlocate
  obtain ⟨r, bytes, text, -, -, -, hread, htext, -, hwords⟩ :=
    build_read_back Text.isBlank (by decide) hresolve hbuild hskipped
  refine ⟨m, h', bytes, text, hresolve, hbuild, hskipped, hread, htext, hwords.2 fun p hp => ?_⟩
  have hshown : ∃ w : List Char, p.text = Text.encode w ∧ w.all (!Text.isBlank ·) = true := by
    rcases (hentries p).1 hp with rfl | rfl
    · exact ⟨"/app/FilesList.txt".toList, rfl, by cbv⟩
    · exact ⟨"/app/B.java".toList, by decide, by cbv⟩
  obtain ⟨w, hw, hplain⟩ := hshown
  rw [hw, Text.decodeLossy_encode]
  exact ⟨Text.isText_encode w, by simpa using hplain⟩

def spacedFile : Name := ⟨.ofString "A B.java", by decide⟩

/-- A directory that is accepted may have a name with a space in it.  Its manifest is then read back
as other names. -/
theorem build_splits_name :
    ∃ m h' bytes text, ((Host.sound (soloFiles spacedFile) []).run (Input.resolve sharingRoot)).1 =
        .ok (.sourceDirectory sharingRoot) ∧
      (Host.sound (soloFiles spacedFile) []).counted.run (build sharingRoot sharingManifest) =
        (.ok m, h') ∧ m.skipped = [] ∧
      h'.files.read h'.directory sharingManifest = .ok bytes ∧ Text.decode? bytes = some text ∧
      (Text.words Text.isBlank text).map Text.encode ≠ m.entries.map (·.text) := by
  have hlocate : (soloFiles spacedFile).locate [] true (sharingRoot.entry spacedFile.bytes) =
      .ok [spacedFile, sharingDirectory] := by cbv
  obtain ⟨m, h', hbuild, hskipped, hentries⟩ := build_solo (by decide) hlocate
  obtain ⟨bytes, text, hread, htext, -, hwords⟩ := read_back Text.isBlank (by decide)
    hbuild hskipped
  refine ⟨m, h', bytes, text, congrArg Prod.fst (resolve_solo spacedFile), hbuild, hskipped, hread,
    htext, fun heq => ?_⟩
  have hspace : ' ' ∈ Text.decodeLossy (sharingRoot.entry spacedFile.bytes).text :=
    (Text.mem_decodeLossy_iff (by decide)).2 (by decide)
  have hplain := hwords.1 heq _ ((hentries _).2 (Or.inr rfl))
  cases hplain.2 ' ' hspace

end Manifest
end SmaliBuild
