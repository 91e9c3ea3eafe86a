import SmaliBuild.Proofs.Files.Prune
import SmaliBuild.Toolchain
/-!
# What the calls do to the host

`Host.run` performs an action on a host.  Each call is described by its answer and by the host after
it: a call that fails leaves the files alone, and one that succeeds is the call of the file system.
What no call touches is `Host.Steady`, and `Host.Ensures` says of an action how the hosts before and
after its runs are related and what it answers; for a relation that can be chained it is enough to
look at the calls (`Ensures.bind`).
-/
namespace SmaliBuild

theorem Journal.calls_append (j k : Journal) : (j ++ k).calls = j.calls ++ k.calls :=
  List.filterMap_append

namespace Host
variable {α β : Type} {h : Host} {p : Path} {e : Entry} {l : Location}

/-- What an action answers on a host, and the host after it. -/
def run (h : Host) (a : Action α) : α × Host := StateT.run a h

@[simp] theorem run_pure (a : α) : h.run (pure a) = (a, h) := rfl

@[simp] theorem run_bind (x : Action α) (f : α → Action β) :
    h.run (x >>= f) = (h.run x).2.run (f (h.run x).1) := rfl

def counted (h : Host) : Host := { h with made := h.made + 1 }

def noting (h : Host) (events : Journal) : Host := { h with journal := h.journal ++ events }

def withFiles (h : Host) (files : FileSystem) : Host := { h with files }

@[simp] theorem files_counted : h.counted.files = h.files := rfl
@[simp] theorem directory_counted : h.counted.directory = h.directory := rfl
@[simp] theorem files_noting {events : Journal} : (h.noting events).files = h.files := rfl
@[simp] theorem input_noting {events : Journal} : (h.noting events).input = h.input := rfl
@[simp] theorem directory_noting {events : Journal} :
    (h.noting events).directory = h.directory := rfl
theorem noting_nil (h : Host) : h.noting [] = h := by simp [noting]

@[simp] theorem files_withFiles {files : FileSystem} : (h.withFiles files).files = files := rfl
@[simp] theorem directory_withFiles {files : FileSystem} :
    (h.withFiles files).directory = h.directory := rfl

theorem run_get : h.run (get : Action Host) = (h, h) := rfl

@[simp] theorem run_log (level : Level) (message : String) (fields : List (String × String)) :
    h.run (log level message fields) =
      ((), h.noting [.log ⟨level, h.input, message, fields⟩]) := rfl

@[simp] theorem run_trouble : h.run trouble = (h.faults h.made, h.counted) := rfl

/-! ## Looking -/

theorem run_look (ask : FileSystem → Location → Except IoError α) :
    h.run (look ask) =
      (match h.faults h.made with
        | some fault => .error fault.error
        | none => ask h.files h.directory, h.counted) := by
  rw [look, run_bind, run_trouble]
  dsimp only
  cases h.faults h.made <;> rfl

theorem run_look_ok {ask : FileSystem → Location → Except IoError α} {a : α}
    (ha : (h.run (look ask)).1 = .ok a) : ask h.files h.directory = .ok a := by
  rw [run_look] at ha
  dsimp only at ha
  split at ha
  · cases ha
  · exact ha

@[simp] theorem run_lstat_snd : (h.run (lstat p)).2 = h.counted := by
  rw [lstat, run_look]

@[simp] theorem run_stat_snd : (h.run (stat p)).2 = h.counted := by
  rw [stat, run_look]

theorem run_lstat_ok (he : (h.run (lstat p)).1 = .ok e) :
    ∃ l, h.files.locate h.directory false p = .ok l ∧ h.files.get? l = some e :=
  FileSystem.lstat_eq_ok_iff.1 (run_look_ok he)

theorem run_stat_ok (he : (h.run (stat p)).1 = .ok e) :
    ∃ l, h.files.locate h.directory true p = .ok l ∧ h.files.get? l = some e :=
  FileSystem.stat_eq_ok_iff.1 (run_look_ok he)

theorem run_lstat_fst (hf : h.faults h.made = none) :
    (h.run (lstat p)).1 = h.files.lstat h.directory p := by
  rw [lstat, run_look, hf]

theorem run_lstat_absent {x : IoError} (hx : (h.run (lstat p)).1 = .error x)
    (habsent : x.isAbsence = true) : h.files.lstat h.directory p = .error (.os .noEntry) := by
  have hnone : x = .os .noEntry := by simpa [IoError.isAbsence] using habsent
  rw [lstat, run_look] at hx
  dsimp only at hx
  cases hf : h.faults h.made with
  | some fault =>
    rw [hf] at hx
    obtain rfl := Except.error.inj hx
    cases (fault.present.symm.trans habsent)
  | none =>
    rw [hf] at hx
    exact hnone ▸ hx

@[simp] theorem run_isDirectory_snd : (h.run (isDirectory p)).2 = h.counted := by
  rw [isDirectory, run_bind, run_stat_snd]
  cases (h.run (stat p)).1 <;> rfl

theorem run_isDirectory_fst (hf : h.faults h.made = none) :
    (h.run (isDirectory p)).1 = h.files.isDirectory h.directory p := by
  rw [isDirectory, run_bind, stat, run_look, hf, FileSystem.isDirectory]
  cases h.files.stat h.directory p <;> rfl

/-- A listing starts with the first names of the directory, and has them all unless it broke off. -/
theorem run_list : (h.run (list p)).2 = h.counted ∧
    ∀ listing, (h.run (list p)).1 = .ok listing →
      ∃ l, h.files.locate h.directory true p = .ok l ∧ h.files.get? l = some .directory ∧
        listing.names <+: h.files.names l ∧
        (listing.broken = none → listing.names = h.files.names l) := by
  rw [list, run_bind, run_trouble, run_bind, run_get]
  dsimp only
  split
  · refine ⟨rfl, fun listing h => ?_⟩
    cases h
  · next names hl =>
    obtain ⟨l, hloc, hdir, rfl⟩ := FileSystem.list_eq_ok_iff.1 hl
    split
    · refine ⟨rfl, fun listing h => ?_⟩
      obtain rfl := Except.ok.inj h
      exact ⟨l, hloc, hdir, List.prefix_refl _, fun _ => rfl⟩
    · refine ⟨rfl, fun listing h => ?_⟩
      cases h
    · next n _ =>
      refine ⟨rfl, fun listing h => ?_⟩
      obtain rfl := Except.ok.inj h
      refine ⟨l, hloc, hdir, List.take_prefix _ _, fun h => ?_⟩
      cases h

@[simp] theorem run_list_snd : (h.run (list p)).2 = h.counted := run_list.1

theorem run_list_fst (hf : h.faults h.made = none)
    (hl : h.files.locate h.directory true p = .ok l) (hd : h.files.get? l = some .directory) :
    ∃ listing, (h.run (list p)).1 = .ok listing ∧ listing.names = h.files.names l ∧
      listing.broken = none := by
  have hok := FileSystem.list_eq_ok_iff.2 ⟨l, hl, hd, rfl⟩
  rw [list, run_bind, run_trouble, run_bind, run_get]
  dsimp only [files_counted, directory_counted]
  split
  · next e he =>
    rw [hok] at he
    cases he
  · next names hnames =>
    rw [hok] at hnames
    obtain rfl := Except.ok.inj hnames
    rw [hf]
    exact ⟨_, rfl, rfl, rfl⟩

/-! ## Changing -/

theorem run_change (act : FileSystem → Location → Except IoError FileSystem) :
    h.run (change act) =
      match h.faults h.made with
      | some fault => (.error fault.error, h.counted)
      | none => match act h.files h.directory with
        | .error e => (.error e, h.counted)
        | .ok files => (.ok (), h.counted.withFiles files) := by
  rw [change, run_bind, run_trouble]
  dsimp only
  cases h.faults h.made with
  | some fault => rfl
  | none =>
    rw [run_bind, run_get]
    dsimp only [files_counted, directory_counted]
    cases act h.files h.directory <;> rfl

theorem run_change_ok {act : FileSystem → Location → Except IoError FileSystem} {files : FileSystem}
    (hf : h.faults h.made = none) (hact : act h.files h.directory = .ok files) :
    h.run (change act) = (.ok (), h.counted.withFiles files) := by
  rw [run_change, hf]
  dsimp only
  rw [hact]

theorem run_change_cases (act : FileSystem → Location → Except IoError FileSystem) :
    (∃ e, h.run (change act) = (.error e, h.counted)) ∨
      ∃ files, act h.files h.directory = .ok files ∧
        h.run (change act) = (.ok (), h.counted.withFiles files) := by
  rw [run_change]
  cases h.faults h.made with
  | some fault => exact Or.inl ⟨fault.error, rfl⟩
  | none =>
    cases hact : act h.files h.directory with
    | error e => exact Or.inl ⟨e, rfl⟩
    | ok files => exact Or.inr ⟨files, rfl, rfl⟩

theorem run_unlink_cases :
    (∃ e, h.run (unlink p) = (.error e, h.counted)) ∨
      ∃ l, h.files.locate h.directory false p = .ok l ∧ h.files.site? h.directory p = some l ∧
        (h.files.get? l).isSome ∧ h.files.get? l ≠ some .directory ∧
        h.run (unlink p) = (.ok (), h.counted.withFiles (h.files.prune l)) := by
  rcases run_change_cases (h := h) fun fs d => fs.unlink d p with he | ⟨files, hact, hrun⟩
  · exact Or.inl he
  · obtain ⟨l, e, hsite, he, hdir, hslash, rfl⟩ := FileSystem.unlink_eq_ok_iff.1 hact
    refine Or.inr ⟨l, ?_, hsite, by simp [he], by simp [he, hdir], hrun⟩
    rw [FileSystem.locate_of_site hsite hslash, he]
    rfl

theorem run_unlink_ok (hf : h.faults h.made = none) (hsite : h.files.site? h.directory p = some l)
    (he : h.files.get? l = some e) (hdir : e ≠ .directory) (hslash : p.endsWithSlash = false) :
    h.run (unlink p) = (.ok (), h.counted.withFiles (h.files.prune l)) :=
  run_change_ok hf (FileSystem.unlink_eq_ok_iff.2 ⟨l, e, hsite, he, hdir, hslash, rfl⟩)

/-- Without trouble no file or link is left at the site of a path, whether there was one or not. -/
theorem run_unlink_snd (hsite : h.files.site? h.directory p = some l)
    (hdir : h.files.get? l ≠ some .directory) (hslash : p.endsWithSlash = false)
    (hf : h.faults h.made = none) :
    (h.run (unlink p)).2 = h.counted.withFiles (h.files.prune l) := by
  cases he : h.files.get? l with
  | some e => rw [run_unlink_ok hf hsite he (fun hd => hdir (hd ▸ he)) hslash]
  | none =>
    rcases run_unlink_cases (h := h) (p := p) with ⟨e, hrun⟩ | ⟨k, -, hk, hsome, -, -⟩
    · rw [hrun, FileSystem.prune_of_free he]
      rfl
    · obtain rfl := Option.some.inj (hsite.symm.trans hk)
      rw [he] at hsome
      cases hsome

theorem run_unlink_slash (hslash : p.endsWithSlash = true) : (h.run (unlink p)).2 = h.counted := by
  rcases run_change_cases (h := h) fun fs d => fs.unlink d p with ⟨e, hrun⟩ | ⟨files, hok, -⟩
  · exact congrArg Prod.snd hrun
  · obtain ⟨-, -, -, -, -, hno, -⟩ := FileSystem.unlink_eq_ok_iff.1 hok
    cases hslash.symm.trans hno

/-- A call that fails and changes nothing, or takes away the entry that `p` names; there is nothing
below that entry. -/
def Takes (p : Path) (x : Action (Except IoError Unit)) : Prop :=
  ∀ h : Host, (∃ e, h.run x = (.error e, h.counted)) ∨
    ∃ l, h.files.locate h.directory false p = .ok l ∧ h.files.site? h.directory p = some l ∧
      (h.files.get? l = some .directory → h.files.names l = []) ∧
      h.run x = (.ok (), h.counted.withFiles (h.files.prune l))

theorem takes_unlink (p : Path) : Takes p (unlink p) := by
  intro h
  rcases run_unlink_cases (h := h) (p := p) with he | ⟨l, hloc, hsite, _, hdir, hrun⟩
  · exact Or.inl he
  · exact Or.inr ⟨l, hloc, hsite, fun hd => absurd hd hdir, hrun⟩

theorem takes_rmdir (p : Path) : Takes p (rmdir p) := by
  intro h
  rcases run_change_cases (h := h) fun fs d => fs.rmdir d p with he | ⟨files, hact, hrun⟩
  · exact Or.inl he
  · obtain ⟨l, hsite, hdir, hnames, rfl⟩ := FileSystem.rmdir_eq_ok_iff.1 hact
    exact Or.inr ⟨l, FileSystem.locate_of_site_directory hsite hdir, hsite, fun _ => hnames, hrun⟩

/-- A file could not be made, because of trouble or for a reason in the files, or it stands at the
site of its path now. -/
theorem run_createFile_cases :
    (∃ e, h.run (createFile p) = (.error e, h.counted) ∧
      (h.faults h.made = none → h.files.createFile h.directory p = .error e)) ∨
      ∃ files l, h.files.createFile h.directory p = .ok (files, l) ∧
        h.run (createFile p) = (.ok l, h.counted.withFiles files) := by
  rw [createFile, run_bind, run_trouble]
  dsimp only
  cases hf : h.faults h.made with
  | some fault =>
    refine Or.inl ⟨fault.error, rfl, fun h => ?_⟩
    cases h
  | none =>
    rw [run_bind, run_get]
    dsimp only [files_counted, directory_counted]
    cases hc : h.files.createFile h.directory p with
    | error e => exact Or.inl ⟨e, rfl, fun _ => rfl⟩
    | ok x => exact Or.inr ⟨x.1, x.2, rfl, rfl⟩

theorem run_createFile_error {e : IoError} (hc : h.files.createFile h.directory p = .error e) :
    h.run (createFile p) =
      (.error (match h.faults h.made with | some fault => fault.error | none => e), h.counted) := by
  rw [createFile, run_bind, run_trouble]
  dsimp only
  cases h.faults h.made with
  | some fault => rfl
  | none =>
    rw [run_bind, run_get]
    dsimp only [files_counted, directory_counted]
    rw [hc]
    rfl

theorem run_createFile_free (hsite : h.files.site? h.directory p = some l)
    (hfree : h.files.get? l = none) (hslash : p.endsWithSlash = false) :
    ∃ made, h.files.createFile h.directory p = .ok (made, l) ∧ h.run (createFile p) =
      match h.faults h.made with
      | some fault => (.error fault.error, h.counted)
      | none => (.ok l, h.counted.withFiles made) := by
  obtain ⟨made, hmade⟩ := FileSystem.createFile_of_site hsite hfree hslash
  refine ⟨made, hmade, ?_⟩
  rw [createFile, run_bind, run_trouble]
  dsimp only
  cases h.faults h.made with
  | some fault => rfl
  | none =>
    rw [run_bind, run_get]
    dsimp only [files_counted, directory_counted]
    rw [hmade]
    rfl

/-- Under trouble a part of the bytes is written. -/
theorem run_append_eq (l : Location) (bytes : Bytes) : h.run (append l bytes) =
    match h.faults h.made with
    | some fault => (.error fault.error,
      h.counted.withFiles (h.files.append l (bytes.take (fault.progress.getD 0))))
    | none => (.ok (), h.counted.withFiles (h.files.append l bytes)) := by
  rw [append, run_bind, run_trouble]
  dsimp only
  cases h.faults h.made <;> rfl

theorem run_append_cases (l : Location) (bytes : Bytes) :
    (∃ e written, h.run (append l bytes) =
        (.error e, h.counted.withFiles (h.files.append l written))) ∨
      h.run (append l bytes) = (.ok (), h.counted.withFiles (h.files.append l bytes)) := by
  rw [run_append_eq]
  cases h.faults h.made with
  | some fault => exact Or.inl ⟨fault.error, bytes.take (fault.progress.getD 0), rfl⟩
  | none => exact Or.inr rfl

theorem run_append (hf : h.faults h.made = none) (bytes : Bytes) :
    h.run (append l bytes) = (.ok (), h.counted.withFiles (h.files.append l bytes)) := by
  rw [run_append_eq, hf]

/-- Whatever an attempt to write to a file comes to, it puts bytes at the end of that file and does
nothing else. -/
theorem run_append_snd (l : Location) (bytes : Bytes) :
    ∃ written, (h.run (append l bytes)).2 = h.counted.withFiles (h.files.append l written) := by
  rcases run_append_cases (h := h) l bytes with ⟨e, written, hrun⟩ | hrun
  · exact ⟨written, by rw [hrun]⟩
  · exact ⟨bytes, by rw [hrun]⟩

@[simp] theorem run_currentDirectory_snd : (h.run currentDirectory).2 = h := by
  rw [currentDirectory, run_bind, run_get]
  dsimp only
  split <;> rfl

@[simp] theorem run_absolute_snd : (h.run (absolute p)).2 = h := by
  unfold absolute
  split
  · rfl
  split
  · rfl
  rw [run_bind, run_currentDirectory_snd]
  cases (h.run currentDirectory).1 <;> rfl

theorem run_absolute_fst (hp : p.isAbsolute = true) : ∃ q, (h.run (absolute p)).1 = .ok q := by
  have htext : p.text ≠ [] := by
    intro hnil
    rw [Path.isAbsolute, hnil] at hp
    cases hp
  unfold absolute
  rw [if_neg htext, if_pos hp, Path.absolute, if_neg htext]
  exact ⟨_, rfl⟩

/-! ## Trouble -/

/-- A machine that starts work and is going to meet `faults`. -/
def facing (files : FileSystem) (directory : Location) (faults : Nat → Option Fault) : Host :=
  ⟨files, directory, faults, 0, none, []⟩

/-- The trouble of a call that is refused because something is in use. -/
def stall : Fault := ⟨.os Errno.busy, none, rfl⟩

/-- After `n` more calls the files are the same. -/
structure Passes (n : Nat) (h h' : Host) : Prop where
  files : h'.files = h.files
  directory : h'.directory = h.directory
  faults : h'.faults = h.faults
  made : h'.made = h.made + n

theorem Passes.refl (h : Host) : Passes 0 h h := ⟨rfl, rfl, rfl, rfl⟩

theorem Passes.trans {i j : Nat} {h h' h'' : Host} (hx : Passes i h h') (hy : Passes j h' h'') :
    Passes (i + j) h h'' := by
  refine ⟨hy.files.trans hx.files, hy.directory.trans hx.directory, hy.faults.trans hx.faults, ?_⟩
  rw [hy.made, hx.made, Nat.add_assoc]

theorem run_list_refused {f : Fault} (hf : h.faults h.made = some f) (hprogress : f.progress = none) :
    ∃ e, (h.run (list p)).1 = .error e := by
  rw [list, run_bind, run_trouble, run_bind, run_get]
  dsimp only
  rw [hf]
  obtain ⟨e, progress, present⟩ := f
  obtain rfl := hprogress
  split <;> exact ⟨_, rfl⟩

/-! ## What an action ensures -/

/-- What no action but a call of a tool changes. -/
structure Steady (h h' : Host) : Prop where
  directory : h'.directory = h.directory
  faults : h'.faults = h.faults
  input : h'.input = h.input
  made : h.made ≤ h'.made
  calls : h'.journal.calls = h.journal.calls

theorem Steady.refl (h : Host) : h.Steady h := ⟨rfl, rfl, rfl, Nat.le_refl _, rfl⟩

theorem Steady.trans {h h' h'' : Host} (hx : h.Steady h') (hy : h'.Steady h'') : h.Steady h'' :=
  ⟨hy.directory.trans hx.directory, hy.faults.trans hx.faults, hy.input.trans hx.input,
    Nat.le_trans hx.made hy.made, hy.calls.trans hx.calls⟩

theorem steady_counted (h : Host) : h.Steady h.counted := ⟨rfl, rfl, rfl, Nat.le_succ _, rfl⟩

theorem steady_withFiles (h : Host) (files : FileSystem) : h.Steady (h.withFiles files) :=
  ⟨rfl, rfl, rfl, Nat.le_refl _, rfl⟩

theorem steady_noting (h : Host) {events : Journal} (hcalls : events.calls = []) :
    h.Steady (h.noting events) :=
  ⟨rfl, rfl, rfl, Nat.le_refl _,
    (Journal.calls_append _ _).trans (hcalls ▸ List.append_nil _)⟩

theorem steady_log (h : Host) (line : LogLine) : h.Steady (h.noting [.log line]) :=
  h.steady_noting rfl

/-- No call between the two hosts met trouble. -/
def Untroubled (h h' : Host) : Prop := ∀ i, h.made ≤ i → i < h'.made → h.faults i = none

theorem Untroubled.part {k k' : Host} (hq : h.Untroubled h') (hbefore : h.Steady k)
    (hafter : k'.Steady h') : k.Untroubled k' := by
  intro i hi hi'
  rw [hbefore.faults]
  exact hq i (hbefore.made.trans hi) (hi'.trans_le hafter.made)

theorem Untroubled.first (hq : h.Untroubled h') (hafter : h.counted.Steady h') :
    h.faults h.made = none :=
  hq h.made (Nat.le_refl _) (Nat.lt_of_succ_le hafter.made)

instance : Std.Refl Steady := ⟨Steady.refl⟩

instance : IsTrans Host Steady := ⟨fun _ _ _ => Steady.trans⟩

/-- Each run of the action relates the host before to the host after by `R`, and its answer is one
of those in `P`. -/
def Ensures (R : Host → Host → Prop) (P : α → Prop) (a : Action α) : Prop :=
  ∀ h, R h (h.run a).2 ∧ P (h.run a).1

section
variable {R : Host → Host → Prop} {P : α → Prop} {Q : β → Prop}

theorem Ensures.pure [Std.Refl R] {a : α} (ha : P a) : Ensures R P (pure a) := fun h =>
  ⟨Std.Refl.refl h, ha⟩

theorem Ensures.bind [IsTrans Host R] {x : Action α} {f : α → Action β} (hx : Ensures R P x)
    (hf : ∀ a, P a → Ensures R Q (f a)) : Ensures R Q (x >>= f) := fun h => by
  rw [run_bind]
  have hfirst := hx h
  have hrest := hf _ hfirst.2 (h.run x).2
  exact ⟨IsTrans.trans _ _ _ hfirst.1 hrest.1, hrest.2⟩

end

end Host

end SmaliBuild
