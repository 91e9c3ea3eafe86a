import SmaliBuild.Proofs.Files.Sites
/-!
# Links on the way

`FileSystem.Crosses` counts the links that a look-up crosses, however many they are.  Where it crosses
none, each name of the path goes down by one directory, and directories stand in one another only to a
certain depth.  So a path of names that crosses `k` links has no more names than fit into `k + 1`
descents (`Crosses.length_le`), whatever the links lead to.
-/
namespace SmaliBuild.FileSystem

/-- The segments `steps` lead from `l` to `r`, and `k` links are crossed on the way.  Neither their number
nor the length of a name is limited. -/
inductive Crosses (fs : FileSystem) : Nat → Location → List Path.Segment → Location → Prop
  | done {l} : Crosses fs 0 l [] l
  | dot {k l rest r} : fs.get? l = some .directory → Crosses fs k l rest r →
      Crosses fs k l ([dot] :: rest) r
  | up {k l rest r} : fs.get? l = some .directory → Crosses fs k l.tail rest r →
      Crosses fs k l (Path.up :: rest) r
  | link {k l n target rest r} : fs.get? l = some .directory →
      fs.get? (n :: l) = some (.link target) →
      Crosses fs k (target.start l) (target.steps ++ rest) r →
      Crosses fs (k + 1) l (n.bytes :: rest) r
  | enter {k l n e rest r} : fs.get? l = some .directory → fs.get? (n :: l) = some e →
      (∀ target, e ≠ .link target) → Crosses fs k (n :: l) rest r →
      Crosses fs k l (n.bytes :: rest) r

variable {fs : FileSystem} {dir l m r : Location} {n : Name} {k links : Nat} {p d : Path}
variable {steps rest : List Path.Segment} {ns : List Name}

/-- A look-up that follows links crosses no more of them than it may. -/
theorem Leads.crosses (h : fs.Leads true links l steps r) :
    ∃ k ≤ links, fs.Crosses k l steps r := by
  generalize hfollow : true = follow at h
  induction h with
  | done => exact ⟨0, Nat.zero_le _, .done⟩
  | dot hl _ ih =>
    obtain ⟨k, hk, hcross⟩ := ih hfollow
    exact ⟨k, hk, .dot hl hcross⟩
  | up hl _ ih =>
    obtain ⟨k, hk, hcross⟩ := ih hfollow
    exact ⟨k, hk, .up hl hcross⟩
  | stop => cases hfollow
  | cross hl _ ht _ _ ih =>
    obtain ⟨k, hk, hcross⟩ := ih hfollow
    exact ⟨k + 1, Nat.succ_le_succ hk, .link hl ht hcross⟩
  | enter hl _ he hlink _ ih =>
    obtain ⟨k, hk, hcross⟩ := ih hfollow
    exact ⟨k, hk, .enter hl he hlink hcross⟩

theorem Crosses.of_append (h : fs.Crosses k l (steps ++ rest) r) :
    ∃ i j m, k = i + j ∧ fs.Crosses i l steps m ∧ fs.Crosses j m rest r := by
  generalize hx : steps ++ rest = x at h
  induction h generalizing steps with
  | done =>
    obtain ⟨rfl, rfl⟩ := List.append_eq_nil_iff.1 hx
    exact ⟨0, 0, _, rfl, .done, .done⟩
  | dot hl hcross ih =>
    rcases List.append_eq_cons_iff.1 hx with ⟨rfl, rfl⟩ | ⟨steps, rfl, hrest⟩
    · exact ⟨0, _, _, (Nat.zero_add _).symm, .done, .dot hl hcross⟩
    · obtain ⟨i, j, m, hk, hfirst, hlast⟩ := ih hrest.symm
      exact ⟨i, j, m, hk, .dot hl hfirst, hlast⟩
  | up hl hcross ih =>
    rcases List.append_eq_cons_iff.1 hx with ⟨rfl, rfl⟩ | ⟨steps, rfl, hrest⟩
    · exact ⟨0, _, _, (Nat.zero_add _).symm, .done, .up hl hcross⟩
    · obtain ⟨i, j, m, hk, hfirst, hlast⟩ := ih hrest.symm
      exact ⟨i, j, m, hk, .up hl hfirst, hlast⟩
  | link hl ht hcross ih =>
    rcases List.append_eq_cons_iff.1 hx with ⟨rfl, rfl⟩ | ⟨steps, rfl, rfl⟩
    · exact ⟨0, _, _, (Nat.zero_add _).symm, .done, .link hl ht hcross⟩
    · obtain ⟨i, j, m, hk, hfirst, hlast⟩ := ih (List.append_assoc _ _ _)
      exact ⟨i + 1, j, m, by omega, .link hl ht hfirst, hlast⟩
  | enter hl he hlink hcross ih =>
    rcases List.append_eq_cons_iff.1 hx with ⟨rfl, rfl⟩ | ⟨steps, rfl, hrest⟩
    · exact ⟨0, _, _, (Nat.zero_add _).symm, .done, .enter hl he hlink hcross⟩
    · obtain ⟨i, j, m, hk, hfirst, hlast⟩ := ih hrest.symm
      exact ⟨i, j, m, hk, .enter hl he hlink hfirst, hlast⟩

theorem Crosses.of_name (h : fs.Crosses k l [n.bytes] r) :
    fs.get? l = some .directory ∧ (k = 0 ∧ r = n :: l ∨ 0 < k) := by
  generalize hx : n.bytes = s at h
  cases h with
  | dot => exact absurd hx n.bytes_ne_dot
  | up => exact absurd hx n.bytes_ne_up
  | link hl _ _ => exact ⟨hl, Or.inr (Nat.succ_pos _)⟩
  | enter hl _ _ hdone =>
    obtain rfl := Name.eq_of_bytes hx
    cases hdone
    exact ⟨hl, Or.inl ⟨rfl, rfl⟩⟩

/-! ## Descents -/

/-- How deep directories stand in one another. -/
def depth (fs : FileSystem) : Nat :=
  ((fs.entries.filter (·.2.isDirectory)).map (·.1.length)).max?.getD 0

theorem length_le_depth (hl : fs.get? l = some .directory) : l.length ≤ fs.depth := by
  by_cases hroot : l = []
  · rw [hroot]
    exact Nat.zero_le _
  · have hmem : (l, Entry.directory) ∈ fs.entries.filter (·.2.isDirectory) :=
      List.mem_filter.2 ⟨mem_entries_of_get? hroot hl, rfl⟩
    exact List.le_max?_getD_of_mem (List.mem_map_of_mem (f := (·.1.length)) hmem)

/-- Between two links each name goes down by one directory, and each link leads to a place from where
there are at most `fs.depth` directories more to go down to. -/
theorem Crosses.length_le (h : fs.Crosses k l (ns.map Name.bytes) r) :
    ns.length + l.length ≤ k * (fs.depth + 1) + r.length := by
  induction ns generalizing k l with
  | nil =>
    cases h
    simp
  | cons n ns ih =>
    have hsplit : fs.Crosses k l ([n.bytes] ++ ns.map Name.bytes) r := h
    obtain ⟨i, j, m, rfl, hfirst, hrest⟩ := hsplit.of_append
    obtain ⟨hl, ⟨rfl, rfl⟩ | hi⟩ := hfirst.of_name
    · have hlater := ih hrest
      simp only [List.length_cons, Nat.zero_add] at hlater ⊢
      omega
    · have hlater := ih hrest
      have hdeep := length_le_depth hl
      have hlinks : 1 * (fs.depth + 1) ≤ i * (fs.depth + 1) := Nat.mul_le_mul_right _ hi
      rw [Nat.add_mul, List.length_cons]
      omega

/-- `p` leads to the directory at `r`, and its look-up crosses no more links than a look-up may.  That
is all that is asked of it. -/
def Opens (fs : FileSystem) (dir : Location) (p : Path) (r : Location) : Prop :=
  fs.get? r = some .directory ∧ ∃ k ≤ linkLimit, fs.Crosses k (p.start dir) p.steps r

theorem opens_of_locate (h : fs.locate dir true p = .ok r) (hr : fs.get? r = some .directory) :
    fs.Opens dir p r :=
  ⟨hr, (locate_eq_ok_iff.1 h).2.crosses⟩

/-- The names that fit behind a path: one for each link and for each directory between two links. -/
def levels (fs : FileSystem) : Nat := linkLimit * (fs.depth + 1) + fs.depth

/-- A path that leads to a directory has only so many names behind the path that it starts with. -/
theorem Opens.length_le (h : fs.Opens dir (d.below ns) r) : ns.length ≤ fs.levels := by
  obtain ⟨hr, k, hk, hcross⟩ := h
  cases ns with
  | nil => exact Nat.zero_le _
  | cons n ns =>
    have hsteps : (d.below (n :: ns)).steps = d.words ++ (n :: ns).reverse.map Name.bytes := by
      rw [Path.below_cons, Path.steps_entry, Path.words_below]
      simp
    rw [hsteps] at hcross
    obtain ⟨i, j, m, rfl, -, hnames⟩ := hcross.of_append
    have hlength := hnames.length_le
    have hdeep := length_le_depth hr
    have hlinks : j * (fs.depth + 1) ≤ linkLimit * (fs.depth + 1) :=
      Nat.mul_le_mul_right _ (by omega)
    rw [List.length_reverse] at hlength
    unfold levels
    omega

end SmaliBuild.FileSystem
