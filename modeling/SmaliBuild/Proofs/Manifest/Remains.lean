import SmaliBuild.Proofs.Manifest.Account
import SmaliBuild.Proofs.Manifest.ReadBack
/-!
# What failed lines leave behind

A line that cannot be written to its end leaves what was written of it in the file, and the next line
goes on from there.  `Manifest.Tells` gives the whole account of a walk, whatever calls fail: the file
is what each attempt at a line put there, and the lists of the manifest are what came of the attempts
(`build_attempts`).  So the file is made of the lines of the listed paths exactly when no failed
attempt left anything.
-/
namespace SmaliBuild.Manifest
open FileSystem Host

/-- What came of a path that was to have a line, or of a directory that was to be listed. -/
inductive Attempt where
  | written (p : Path)
  | failed (p : Path) (f : Fault)
  | unlisted (p : Path) (e : IoError)

namespace Attempt

def path : Attempt → Path
  | written p | failed p _ | unlisted p _ => p

def entry? : Attempt → Option Path
  | written p => some p
  | failed _ _ | unlisted _ _ => none

def setback? : Attempt → Option Setback
  | written _ => none
  | failed p f => some ⟨p, f.error⟩
  | unlisted p e => some ⟨p, e⟩

def bytes : Attempt → Bytes
  | written p => line p
  | failed p f => (line p).take (f.progress.getD 0)
  | unlisted _ _ => []

end Attempt

/-! ## The account of a walk -/

/-- The attempts are all that was done to the manifest and to the open file. -/
structure Tells (l : Location) (attempts : List Attempt) (a b : Manifest × Host) : Prop where
  entries : b.1.entries = a.1.entries ++ attempts.filterMap Attempt.entry?
  skipped : b.1.skipped = a.1.skipped ++ attempts.filterMap Attempt.setback?
  content : ∀ content x, a.2.files.get? l = some (.file content x) →
    b.2.files.get? l = some (.file (content ++ attempts.flatMap Attempt.bytes) x)
  faults : b.2.faults = a.2.faults
  failed : ∀ p f, Attempt.failed p f ∈ attempts → ∃ i, a.2.faults i = some f

variable {l : Location} {h h' : Host} {m : Manifest} {p root path : Path} {a b c : Manifest × Host}
variable {attempts attempts' : List Attempt} {moves : List Move}

theorem Tells.trans (hx : Tells l attempts a b) (hy : Tells l attempts' b c) :
    Tells l (attempts ++ attempts') a c where
  entries := by rw [hy.entries, hx.entries, List.filterMap_append, List.append_assoc]
  skipped := by rw [hy.skipped, hx.skipped, List.filterMap_append, List.append_assoc]
  content content x hfile := by
    rw [hy.content _ _ (hx.content _ _ hfile), List.flatMap_append, List.append_assoc]
  faults := hy.faults.trans hx.faults
  failed p f hf := by
    cases List.mem_append.1 hf with
    | inl hf => exact hx.failed p f hf
    | inr hf => exact hx.faults ▸ hy.failed p f hf

theorem tells_look (m : Manifest) (h : Host) : Tells l [] (m, h) (m, h.counted) where
  entries := (List.append_nil _).symm
  skipped := (List.append_nil _).symm
  content content x hfile := by simpa using hfile
  faults := rfl
  failed p f hf := absurd hf List.not_mem_nil

theorem tells_skip (p : Path) (e : IoError) (m : Manifest) (h : Host) :
    Tells l [.unlisted p e] (m, h) (h.run (m.skip p e)) where
  entries := (List.append_nil _).symm
  skipped := rfl
  content content x hfile := by
    rw [List.flatMap_singleton, Attempt.bytes, List.append_nil]
    exact hfile
  faults := rfl
  failed q f hf := nomatch List.mem_singleton.1 hf

theorem run_write_fault {f : Fault} (hf : h.faults h.made = some f) :
    ∃ events, h.run (write l p m) = ({ m with skipped := m.skipped ++ [⟨p, f.error⟩] },
      (h.counted.withFiles (h.files.append l ((line p).take (f.progress.getD 0)))).noting events) := by
  have happend := run_append_eq (h := h) l (line p)
  rw [hf] at happend
  rw [write, run_bind, happend]
  exact ⟨_, rfl⟩

theorem exists_tells_write (p : Path) (m : Manifest) (h : Host) :
    ∃ attempt : Attempt, attempt.path = p ∧ Tells l [attempt] (m, h) (h.run (write l p m)) := by
  cases hf : h.faults h.made with
  | none =>
    rw [run_write hf]
    refine ⟨.written p, rfl, rfl, (List.append_nil _).symm, fun content x hfile => ?_, rfl, ?_⟩
    · rw [List.flatMap_singleton]
      exact get?_append_self hfile
    · exact fun q f hq => nomatch List.mem_singleton.1 hq
  | some f =>
    obtain ⟨events, hwrite⟩ := run_write_fault (l := l) (p := p) (m := m) hf
    rw [hwrite]
    refine ⟨.failed p f, rfl, (List.append_nil _).symm, rfl, fun content x hfile => ?_, rfl, ?_⟩
    · rw [List.flatMap_singleton]
      exact get?_append_self hfile
    · intro q g hq
      obtain ⟨rfl, rfl⟩ := Attempt.failed.inj (List.mem_singleton.1 hq)
      exact ⟨h.made, hf⟩

theorem Walks.tells (hw : Walks l moves a b) :
    ∃ attempts, attempts.map Attempt.path = moves.map Move.path ∧ Tells l attempts a b := by
  induction hw with
  | @done a =>
    exact ⟨[], rfl, (List.append_nil _).symm, (List.append_nil _).symm, fun _ _ hfile => by simpa using hfile,
      rfl, fun p f hf => absurd hf List.not_mem_nil⟩
  | @look _ m h _ _ ih =>
    obtain ⟨attempts, hpaths, htells⟩ := ih
    exact ⟨attempts, hpaths, (tells_look m h).trans htells⟩
  | @move v moves m h b _ ih =>
    obtain ⟨attempts, hpaths, htells⟩ := ih
    cases v with
    | skip p e =>
      exact ⟨.unlisted p e :: attempts, congrArg (p :: ·) hpaths, (tells_skip p e m h).trans htells⟩
    | write p =>
      obtain ⟨attempt, hpath, hfirst⟩ := exists_tells_write (l := l) p m h
      refine ⟨attempt :: attempts, ?_, hfirst.trans htells⟩
      rw [List.map_cons, hpath, hpaths]
      rfl

/-! ## The lines in the file -/

theorem mem_entries_iff : p ∈ attempts.filterMap Attempt.entry? ↔ Attempt.written p ∈ attempts := by
  rw [List.mem_filterMap]
  constructor
  · rintro ⟨attempt, hmem, hp⟩
    cases attempt with
    | written q => exact Option.some.inj hp ▸ hmem
    | failed q f => cases hp
    | unlisted q e => cases hp
  · exact fun hmem => ⟨_, hmem, rfl⟩

theorem notMem_entries (hnodup : (attempts.map Attempt.path).Nodup) {x : Setback}
    (hx : x ∈ attempts.filterMap Attempt.setback?) :
    x.path ∉ attempts.filterMap Attempt.entry? := by
  intro hwritten
  obtain ⟨attempt, hmem, hsetback⟩ := List.mem_filterMap.1 hx
  have hpath : attempt.path = x.path := by
    cases attempt with
    | written p => cases hsetback
    | failed p f => exact congrArg Setback.path (Option.some.inj hsetback)
    | unlisted p e => exact congrArg Setback.path (Option.some.inj hsetback)
  obtain rfl := List.inj_on_of_nodup_map hnodup hmem (mem_entries_iff.1 hwritten) hpath
  cases hsetback

theorem bytes_of_entry? {attempt : Attempt} (he : attempt.entry? = some p) :
    attempt.bytes = line p := by
  cases attempt with
  | written q => exact congrArg line (Option.some.inj he)
  | failed q f => cases he
  | unlisted q e => cases he

theorem lines_sublist (attempts : List Attempt) :
    ((attempts.filterMap Attempt.entry?).flatMap line).Sublist (attempts.flatMap Attempt.bytes) := by
  induction attempts with
  | nil => exact List.Sublist.refl _
  | cons attempt attempts ih =>
    cases he : attempt.entry? with
    | some p =>
      rw [List.filterMap_cons_some he, List.flatMap_cons, List.flatMap_cons, bytes_of_entry? he]
      exact (List.Sublist.refl (line p)).append ih
    | none =>
      rw [List.filterMap_cons_none he]
      exact ih.trans (List.sublist_append_right _ _)

/-- The file is made of the lines of the listed paths exactly when the other attempts left nothing. -/
theorem bytes_eq_lines_iff :
    attempts.flatMap Attempt.bytes = (attempts.filterMap Attempt.entry?).flatMap line ↔
      ∀ attempt ∈ attempts, attempt.entry? = none → attempt.bytes = [] := by
  induction attempts with
  | nil => exact iff_of_true rfl fun attempt ha => absurd ha List.not_mem_nil
  | cons attempt attempts ih =>
    rw [List.forall_mem_cons, ← ih, List.flatMap_cons]
    cases he : attempt.entry? with
    | some p =>
      rw [List.filterMap_cons_some he, List.flatMap_cons, bytes_of_entry? he, List.append_cancel_left_eq]
      simp
    | none =>
      rw [List.filterMap_cons_none he]
      -- the lines are a part of what the later attempts left, so nothing can stand before them
      constructor
      · intro heq
        have hlength := (lines_sublist attempts).length_le
        rw [← heq, List.length_append] at hlength
        have hnone : attempt.bytes = [] := List.eq_nil_of_length_eq_zero (by omega)
        rw [hnone] at heq
        exact ⟨fun _ => hnone, heq⟩
      · rintro ⟨hnone, heq⟩
        rw [hnone rfl, heq, List.nil_append]

theorem lines_eq_iff {entries : List Path} (hne : ∀ p ∈ entries, p.text ≠ []) :
    ∃ text, Text.decode? (entries.flatMap line) = some text ∧
      ((Text.words (· == '\n') text).map Text.encode = entries.map (·.text) ↔
        ∀ p ∈ entries, Text.isText p.text = true ∧ lineEnd ∉ p.text) := by
  have hascii : '\n'.toNat < 0x80 := by decide
  obtain ⟨text, htext, -, hwords⟩ := @words_lines_iff (· == '\n') _ (by decide) hne
  refine ⟨text, htext, hwords.trans (forall₂_congr fun p _ => and_congr_right fun _ => ?_)⟩
  change _ ↔ UInt8.ofNat '\n'.toNat ∉ p.text
  rw [← Text.mem_decodeLossy_iff hascii]
  constructor
  · intro hplain hline
    cases hplain '\n' hline
  · intro hline c hc
    rw [beq_eq_false_iff_ne]
    rintro rfl
    exact hline hc

/-! ## The whole manifest -/

/-- What a manifest that was written and its file have in them, whatever calls fail.  The paths that
were met are different.  The listed ones are those whose line was written, the skipped ones those whose
line met trouble or that could not be listed, and the file is what all attempts left there. -/
theorem build_attempts (hbuild : h.run (build root path) = (.ok m, h')) :
    ∃ attempts : List Attempt, (attempts.map Attempt.path).Nodup ∧
      m.entries = attempts.filterMap Attempt.entry? ∧
      m.skipped = attempts.filterMap Attempt.setback? ∧
      (∀ x ∈ m.skipped, x.path ∉ m.entries) ∧
      (∀ p f, .failed p f ∈ attempts → ∃ i, h.faults i = some f) ∧
      h'.files.read h'.directory path = .ok (attempts.flatMap Attempt.bytes) ∧
      (attempts.flatMap Attempt.bytes = m.entries.flatMap line ↔
        ∀ attempt ∈ attempts, attempt.entry? = none → attempt.bytes = []) ∧
      ∃ text, Text.decode? (m.entries.flatMap line) = some text ∧
        ((Text.words (· == '\n') text).map Text.encode = m.entries.map (·.text) ↔
          ∀ p ∈ m.entries, Text.isText p.text = true ∧ lineEnd ∉ p.text) := by
  have hfaults : h'.faults = h.faults := by
    have hsteady := (build_replaces root path h).1
    rw [hbuild] at hsteady
    exact hsteady.faults
  obtain ⟨r, l, event, -, hsite, hslash, hfile, rfl, rfl⟩ := build_eq_ok hbuild
  generalize recreated path h = made at hsite hfile hfaults ⊢
  obtain ⟨moves, hwalk, hnodup, -⟩ := addDirectory_walks l r ⟨path, [], []⟩ made
  obtain ⟨new, hadds, -, hbelow⟩ := addDirectory_adds l r ⟨path, [], []⟩ made
  obtain ⟨attempts, hpaths, htells⟩ := hwalk.tells
  have hfills := (addDirectory_ensures l r ⟨path, [], []⟩ made).1
  generalize made.run (addDirectory l r ⟨path, [], []⟩) = out at htells hadds hfills hfaults ⊢
  have hdifferent : (attempts.map Attempt.path).Nodup := hpaths ▸ hnodup
  have hentries : out.1.entries = attempts.filterMap Attempt.entry? := htells.entries
  have hskipped : out.1.skipped = attempts.filterMap Attempt.setback? := htells.skipped
  refine ⟨attempts, hdifferent, hentries, hskipped, fun x hx => ?_, fun p f hf => ?_, ?_, ?_, ?_⟩
  · rw [hskipped] at hx
    rw [hentries]
    exact notMem_entries hdifferent hx
  · rw [← hfaults]
    exact htells.faults ▸ htells.failed p f hf
  · have hcontent := htells.content [] false hfile
    have hlocate := locate_of_site_plain (site?_mono hfills.within hsite) hslash hcontent (by simp)
    change out.2.files.read out.2.directory path = _
    rw [hfills.steady.directory]
    exact read_of_locate hlocate hcontent
  · rw [hentries]
    exact bytes_eq_lines_iff
  · apply lines_eq_iff
    intro p hp
    rw [hadds.entries, List.nil_append] at hp
    obtain ⟨n, ns, hns⟩ := hbelow p hp
    exact text_ne_nil_of_below hns

/-! ## A line that is cut off -/

/-- Where the first line of two is cut off, the second one goes on from there. -/
theorem run_addDirectory_torn {d : Path} {n k : Name} {r : Location} {f : Fault} {torn : FileSystem}
    (l : Location) (m : Manifest) (hr : h.files.locate h.directory true d = .ok r)
    (hd : h.files.get? r = some .directory) (hnames : h.files.names r = [n, k])
    (hn : h.files.isDirectory h.directory (d.entry n.bytes) = false)
    (hcut : h.faults (h.made + 2) = some f) (hsound : ∀ i, i ≠ h.made + 2 → h.faults i = none)
    (htorn : torn = h.files.append l ((line (d.entry n.bytes)).take (f.progress.getD 0)))
    (hk : torn.isDirectory h.directory (d.entry k.bytes) = false) :
    ∃ h', h.run (addDirectory l d m) = (⟨m.path, m.entries ++ [d.entry k.bytes],
        m.skipped ++ [⟨d.entry n.bytes, f.error⟩]⟩, h') ∧
      h'.files = torn.append l (line (d.entry k.bytes)) ∧ h'.directory = h.directory := by
  obtain ⟨listing, hlisting, hall, hwhole⟩ := run_list_fst (hsound h.made (by omega)) hr hd
  obtain ⟨events, hfailed⟩ :=
    run_write_fault (h := h.counted.counted) (l := l) (p := d.entry n.bytes) (m := m) hcut
  have hfirst : (h.counted.run (Host.isDirectory (d.entry n.bytes))).1 = false :=
    (run_isDirectory_fst (hsound (h.made + 1) (by omega))).trans hn
  rw [files_counted, files_counted, ← htorn] at hfailed
  generalize hcutOff : (h.counted.counted.counted.withFiles torn).noting events = h₁ at hfailed
  have hfaults : ∀ i, h.made + 2 < i → h₁.faults i = none := by
    intro i hi
    rw [← hcutOff]
    exact hsound i (by omega)
  have hmade : h₁.made = h.made + 3 := by rw [← hcutOff]; rfl
  have hsecond : (h₁.run (Host.isDirectory (d.entry k.bytes))).1 = false := by
    rw [run_isDirectory_fst (hfaults h₁.made (by omega)), ← hcutOff]
    exact hk
  have hwritten := run_write (h := h₁.counted) (l := l) (p := d.entry k.bytes)
    (m := ⟨m.path, m.entries, m.skipped ++ [⟨d.entry n.bytes, f.error⟩]⟩)
    (hfaults (h₁.made + 1) (by omega))
  rw [addDirectory, run_bind, run_list_snd, hlisting]
  dsimp only
  rw [run_bind, hwhole, hall, hnames, run_addEntries_leaf listing.short hfirst, hfailed,
    run_addEntries_leaf listing.short hsecond, hwritten, addEntries]
  refine ⟨_, rfl, ?_, ?_⟩
  · rw [← hcutOff]
    rfl
  · rw [← hcutOff]
    rfl

/-! ## A machine that runs out of room -/

def cutFile : Name := ⟨.ofString "Added.java", by decide⟩

def pairFiles : FileSystem where
  entries := [([sharingDirectory], .directory), ([cutFile, sharingDirectory], .file [] false),
    ([sharedFile, sharingDirectory], .file [] false)]
  unique := by decide
  rooted := by simp

def pairListed (content : Bytes) : FileSystem where
  entries := ([sharingEntry], .file content false) :: pairFiles.entries
  unique := by
    change ([sharingEntry] :: pairFiles.entries.map (·.1)).Nodup
    decide
  rooted := by simp [pairFiles]

/-- There is no room for the rest of a line after `n` bytes. -/
def full (n : Nat) : Fault := ⟨.os 28, some n, by decide⟩

/-- A machine that has no room at its fifth call, which is when the first line is written. -/
def fullHost (n : Nat) (files : FileSystem) (made : Nat) : Host :=
  ⟨files, [], fun i => if i = 4 then some (full n) else none, made, none, []⟩

def cutSource : Path := .ofString "/app/Added.java"

def wholeSource : Path := .ofString "/app/B.java"

theorem run_create_full (n : Nat) :
    ((fullHost n pairFiles 0).run (clear rootManifest)).2.run (createFile rootManifest) =
      (.ok [sharingEntry], fullHost n (pairListed []) 2) := by
  cbv

/-- The manifest when the machine runs out of room after `n` bytes of its first line. -/
theorem build_full (n : Nat) : ∃ h',
    (fullHost n pairFiles 0).run (build sharingRoot rootManifest) =
      (.ok ⟨rootManifest, [wholeSource], [⟨cutSource, .os 28⟩]⟩, h') ∧
    h'.files.read h'.directory rootManifest = .ok ((line cutSource).take n ++ line wholeSource) := by
  have hcut : sharingRoot.entry cutFile.bytes = cutSource := by cbv
  have hwhole : sharingRoot.entry sharedFile.bytes = wholeSource := by cbv
  have hroot : ((fullHost n pairFiles 0).run (Host.absolute sharingRoot)).1 = .ok sharingRoot := by cbv
  obtain ⟨event, hbuild⟩ := run_build hroot (congrArg Prod.fst (run_create_full n))
  have hmade : recreated rootManifest (fullHost n pairFiles 0) = fullHost n (pairListed []) 2 :=
    congrArg Prod.snd (run_create_full n)
  have hlocate : (pairListed []).locate [] true sharingRoot = .ok [sharingDirectory] := by cbv
  have hnames : (pairListed []).names [sharingDirectory] = [cutFile, sharedFile] := by cbv
  have hfirst : (pairListed []).isDirectory [] (sharingRoot.entry cutFile.bytes) = false := by cbv
  have hsecond : (pairListed ((line cutSource).take n)).isDirectory []
      (sharingRoot.entry sharedFile.bytes) = false := by cbv
  obtain ⟨h', hwalk, hfiles, hdirectory⟩ := run_addDirectory_torn (h := fullHost n (pairListed []) 2)
    (f := full n) [sharingEntry] ⟨rootManifest, [], []⟩ hlocate rfl hnames hfirst rfl
    (fun i hi => if_neg hi) (hcut ▸ rfl) hsecond
  rw [hmade, hwalk, hcut, hwhole] at hbuild
  refine ⟨_, hbuild, ?_⟩
  change h'.files.read h'.directory rootManifest = _
  rw [hfiles, hdirectory, hwhole]
  have hsite : (pairListed ((line cutSource).take n ++ line wholeSource)).locate [] true rootManifest =
    .ok [sharingEntry] := by cbv
  exact read_of_locate hsite rfl

/-- The attempts that such a manifest comes from. -/
theorem build_attempts_full : ∃ h',
    (fullHost 6 pairFiles 0).run (build sharingRoot rootManifest) =
      (.ok ⟨rootManifest, [wholeSource], [⟨cutSource, .os 28⟩]⟩, h') ∧
    ∃ attempts : List Attempt, [wholeSource] = attempts.filterMap Attempt.entry? ∧
      [⟨cutSource, .os 28⟩] = attempts.filterMap Attempt.setback? ∧
      h'.files.read h'.directory rootManifest = .ok (attempts.flatMap Attempt.bytes) := by
  obtain ⟨h', hbuild, -⟩ := build_full 6
  obtain ⟨attempts, -, hentries, hskipped, -, -, hread, -⟩ := build_attempts hbuild
  exact ⟨h', hbuild, attempts, hentries, hskipped, hread⟩

def brokenFile : Name := ⟨.ofString "A\nB.java", by decide⟩

/-- A line that is cut off goes on with the next path.  A name with a line end in it breaks its line. -/
theorem build_corrupts :
    (∃ m h', (fullHost 6 pairFiles 0).run (build sharingRoot rootManifest) = (.ok m, h') ∧
      m.entries = [wholeSource] ∧ m.skipped = [⟨cutSource, .os 28⟩] ∧
      h'.files.read h'.directory rootManifest = .ok (Text.encode "/app/A/app/B.java\n".toList) ∧
      Text.encode "/app/A/app/B.java\n".toList ≠ m.entries.flatMap line) ∧
    ∃ m h' bytes text,
      (Host.sound (soloFiles brokenFile) []).counted.run (build sharingRoot sharingManifest) =
        (.ok m, h') ∧ m.skipped = [] ∧
      h'.files.read h'.directory sharingManifest = .ok bytes ∧ Text.decode? bytes = some text ∧
      (Text.words (· == '\n') text).map Text.encode ≠ m.entries.map (·.text) := by
  constructor
  · obtain ⟨h', hbuild, hread⟩ := build_full 6
    have hcut : line cutSource = exactLine cutSource := line_eq_exactLine (Text.isText_encode _)
    have hwhole : line wholeSource = exactLine wholeSource := line_eq_exactLine (Text.isText_encode _)
    have hbytes : (exactLine cutSource).take 6 ++ exactLine wholeSource =
        Text.encode "/app/A/app/B.java\n".toList := by decide
    refine ⟨_, h', hbuild, rfl, rfl, ?_, ?_⟩
    · rw [hread, hcut, hwhole, hbytes]
    · rw [List.flatMap_singleton, hwhole]
      decide
  · have hlocate : (soloFiles brokenFile).locate [] true (sharingRoot.entry brokenFile.bytes) =
        .ok [brokenFile, sharingDirectory] := by cbv
    obtain ⟨m, h', hbuild, hskipped, hentries⟩ := build_solo (by decide) hlocate
    obtain ⟨bytes, text, hread, htext, -, hwords⟩ := read_back (· == '\n') (by decide) hbuild hskipped
    refine ⟨m, h', bytes, text, hbuild, hskipped, hread, htext, fun heq => ?_⟩
    have hline : '\n' ∈ Text.decodeLossy (sharingRoot.entry brokenFile.bytes).text :=
      (Text.mem_decodeLossy_iff (by decide)).2 (by decide)
    have hplain := hwords.1 heq _ ((hentries _).2 (Or.inr rfl))
    cases hplain.2 '\n' hline

end SmaliBuild.Manifest
