import SmaliBuild.Proofs.Host.Steps
/-!
# Two runs side by side

Two machines are `Abreast` if they work in the same directory and have the same trouble ahead.  An
action that is `Alike` on machines related by `R` answers the same on both and leaves them related.
For an action that is put together it is enough to look at its calls (`Alike.bind`), and what a call
answers depends on its trouble and on what it asks of the files.  Machines that are abreast and have
the same files are `Twin`s.
-/
namespace SmaliBuild.Host
variable {α β : Type} {h h₁ h₂ : Host} {p : Path} {R : Host → Host → Prop}

/-- The two machines work in one directory and have the same trouble ahead. -/
structure Abreast (h₁ h₂ : Host) : Prop where
  directory : h₂.directory = h₁.directory
  ahead : ∀ i, h₂.faults (h₂.made + i) = h₁.faults (h₁.made + i)

namespace Abreast

theorem now (ha : Abreast h₁ h₂) : h₂.faults h₂.made = h₁.faults h₁.made := ha.ahead 0

theorem counted (ha : Abreast h₁ h₂) : Abreast h₁.counted h₂.counted where
  directory := ha.directory
  ahead i := by
    have hnext := ha.ahead (1 + i)
    rw [← Nat.add_assoc, ← Nat.add_assoc] at hnext
    exact hnext

theorem noting (ha : Abreast h₁ h₂) (j₁ j₂ : Journal) : Abreast (h₁.noting j₁) (h₂.noting j₂) :=
  ⟨ha.directory, ha.ahead⟩

theorem withFiles (ha : Abreast h₁ h₂) (fs₁ fs₂ : FileSystem) :
    Abreast (h₁.withFiles fs₁) (h₂.withFiles fs₂) :=
  ⟨ha.directory, ha.ahead⟩

end Abreast

/-! ## Actions -/

/-- On machines related by `R` the action answers the same, and they are related by `R` again. -/
def Alike (R : Host → Host → Prop) (x : Action α) : Prop :=
  ∀ h₁ h₂, R h₁ h₂ → (h₂.run x).1 = (h₁.run x).1 ∧ R (h₁.run x).2 (h₂.run x).2

theorem Alike.pure (a : α) : Alike R (pure a : Action α) := fun _ _ hR => ⟨rfl, hR⟩

theorem Alike.bind {x : Action α} {f : α → Action β} (hx : Alike R x) (hf : ∀ a, Alike R (f a)) :
    Alike R (x >>= f) := fun h₁ h₂ hR => by
  obtain ⟨hanswer, hafter⟩ := hx h₁ h₂ hR
  rw [run_bind, run_bind, hanswer]
  exact hf _ _ _ hafter

/-- Lines of the log do not matter to a relation that holds with any journal. -/
theorem log_alike (hR : ∀ h₁ h₂ j₁ j₂, R h₁ h₂ → R (h₁.noting j₁) (h₂.noting j₂)) (level : Level)
    (message : String) (fields : List (String × String)) : Alike R (log level message fields) :=
  fun h₁ h₂ h => ⟨rfl, hR h₁ h₂ _ _ h⟩

/-! ## Calls -/

/-- A call that leaves the host as it was but for the count is alike if it finds the same. -/
theorem Alike.of_counted {x : Action α} (hx : ∀ h : Host, (h.run x).2 = h.counted)
    (hcounted : ∀ h₁ h₂, R h₁ h₂ → R h₁.counted h₂.counted)
    (hanswer : ∀ h₁ h₂, R h₁ h₂ → (h₂.run x).1 = (h₁.run x).1) : Alike R x := fun h₁ h₂ h => by
  rw [hx, hx]
  exact ⟨hanswer h₁ h₂ h, hcounted h₁ h₂ h⟩

theorem run_isDirectory_eq (h : Host) : (h.run (isDirectory p)).1 =
    match h.faults h.made with
    | some _ => false
    | none => h.files.isDirectory h.directory p := by
  cases hf : h.faults h.made with
  | none => exact run_isDirectory_fst hf
  | some fault =>
    rw [isDirectory, run_bind, stat, run_look, hf]
    rfl

theorem run_isDirectory_congr (hf : h₂.faults h₂.made = h₁.faults h₁.made)
    (hfiles : h₂.files.isDirectory h₂.directory p = h₁.files.isDirectory h₁.directory p) :
    (h₂.run (isDirectory p)).1 = (h₁.run (isDirectory p)).1 := by
  rw [run_isDirectory_eq, run_isDirectory_eq, hf, hfiles]

/-- What comes of listing a directory with these names. -/
def listed (fault : Option Fault) (names : List Name) (short : p.byteLength < pathLimit) :
    Except IoError (Listing p) :=
  match fault with
  | none => .ok ⟨names, none, short⟩
  | some ⟨e, none, _⟩ => .error e
  | some ⟨e, some n, _⟩ => .ok ⟨names.take n, some e, short⟩

theorem run_list_ok {names : List Name} (hl : h.files.list h.directory p = .ok names) :
    (h.run (list p)).1 = listed (h.faults h.made) names (FileSystem.byteLength_lt_of_list hl) := by
  rw [list, run_bind, run_trouble, run_bind, run_get]
  dsimp only [files_counted, directory_counted]
  split
  · next e he => cases hl.symm.trans he
  · next names' hnames =>
    obtain rfl := Except.ok.inj (hl.symm.trans hnames)
    cases h.faults h.made with
    | none => rfl
    | some fault =>
      obtain ⟨e, progress, present⟩ := fault
      cases progress <;> rfl

theorem run_list_error {e : IoError} (hl : h.files.list h.directory p = .error e) :
    (h.run (list p)).1 = .error (match h.faults h.made with | some f => f.error | none => e) := by
  rw [list, run_bind, run_trouble, run_bind, run_get]
  dsimp only [files_counted, directory_counted]
  split
  · next e' he => rw [Except.error.inj (hl.symm.trans he)]; rfl
  · next names hnames => cases hl.symm.trans hnames

theorem run_list_congr (hf : h₂.faults h₂.made = h₁.faults h₁.made)
    (hfiles : h₂.files.list h₂.directory p = h₁.files.list h₁.directory p) :
    (h₂.run (list p)).1 = (h₁.run (list p)).1 := by
  cases hl : h₁.files.list h₁.directory p with
  | error e => rw [run_list_error hl, run_list_error (hfiles.trans hl), hf]
  | ok names => rw [run_list_ok hl, run_list_ok (hfiles.trans hl), hf]

/-- Writing is alike where the trouble is, if what was written makes no difference. -/
theorem append_alike {l : Location} {bytes : Bytes} (hnow : ∀ h₁ h₂, R h₁ h₂ → Abreast h₁ h₂)
    (hwritten : ∀ h₁ h₂ written, R h₁ h₂ → R (h₁.counted.withFiles (h₁.files.append l written))
      (h₂.counted.withFiles (h₂.files.append l written))) : Alike R (append l bytes) :=
  fun h₁ h₂ h => by
    rw [run_append_eq, run_append_eq, (hnow h₁ h₂ h).now]
    cases h₁.faults h₁.made with
    | some fault => exact ⟨rfl, hwritten h₁ h₂ _ h⟩
    | none => exact ⟨rfl, hwritten h₁ h₂ _ h⟩

theorem run_currentDirectory_fst (h : Host) : (h.run currentDirectory).1 =
    if h.files.get? h.directory = some .directory then .ok h.directory.path
    else .error (.os .noEntry) := by
  rw [currentDirectory, run_bind, run_get]
  dsimp only
  split
  · next hd => rw [if_pos hd]; rfl
  · next hd => rw [if_neg fun h => hd h]; rfl

theorem run_absolute_congr (hdirectory : h₂.directory = h₁.directory)
    (hfiles : h₂.files.get? h₁.directory = some .directory ↔
      h₁.files.get? h₁.directory = some .directory) :
    (h₂.run (absolute p)).1 = (h₁.run (absolute p)).1 := by
  have hhere : (h₂.run currentDirectory).1 = (h₁.run currentDirectory).1 := by
    simp only [run_currentDirectory_fst, hdirectory, hfiles]
  unfold absolute
  split
  · rfl
  split
  · rfl
  rw [run_bind, run_bind, hhere]
  cases (h₁.run currentDirectory).1 <;> rfl

/-! ## Twins -/

/-- The two machines are abreast and have the same files. -/
structure Twin (h₁ h₂ : Host) : Prop extends Abreast h₁ h₂ where
  files : h₂.files = h₁.files

theorem Twin.noting (ht : Twin h₁ h₂) (j₁ j₂ : Journal) : Twin (h₁.noting j₁) (h₂.noting j₂) :=
  ⟨ht.toAbreast.noting j₁ j₂, ht.files⟩

theorem Twin.counted (ht : Twin h₁ h₂) : Twin h₁.counted h₂.counted :=
  ⟨ht.toAbreast.counted, ht.files⟩

theorem Twin.withFiles (ht : Twin h₁ h₂) (fs : FileSystem) :
    Twin (h₁.withFiles fs) (h₂.withFiles fs) :=
  ⟨ht.toAbreast.withFiles fs fs, rfl⟩

theorem isDirectory_twin (p : Path) : Alike Twin (isDirectory p) :=
  .of_counted (fun _ => run_isDirectory_snd) (fun _ _ ht => ht.counted) fun h₁ h₂ ht =>
    run_isDirectory_congr ht.now (by rw [ht.files, ht.directory])

theorem list_twin (p : Path) : Alike Twin (list p) :=
  .of_counted (fun _ => run_list_snd) (fun _ _ ht => ht.counted) fun h₁ h₂ ht =>
    run_list_congr ht.now (by rw [ht.files, ht.directory])

theorem createFile_twin (p : Path) : Alike Twin (createFile p) := fun h₁ h₂ ht => by
  rw [createFile, run_bind, run_trouble, run_bind, run_trouble]
  dsimp only
  rw [ht.now]
  cases h₁.faults h₁.made with
  | some fault => exact ⟨rfl, ht.counted⟩
  | none =>
    have hmade : h₂.files.createFile h₂.directory p = h₁.files.createFile h₁.directory p := by
      rw [ht.files, ht.directory]
    rw [run_bind, run_get, run_bind, run_get]
    dsimp only [files_counted, directory_counted]
    rw [hmade]
    cases h₁.files.createFile h₁.directory p with
    | error e => exact ⟨rfl, ht.counted⟩
    | ok x => exact ⟨rfl, ht.counted.withFiles x.1⟩

theorem append_twin (l : Location) (bytes : Bytes) : Alike Twin (append l bytes) :=
  append_alike (fun _ _ ht => ht.toAbreast) fun h₁ h₂ written ht => by
    rw [ht.files]
    exact ht.counted.withFiles _

end SmaliBuild.Host
