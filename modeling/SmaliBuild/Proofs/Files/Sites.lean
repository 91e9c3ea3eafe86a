import SmaliBuild.Proofs.Files.Lookup
/-!
# Where a path's entry is

A path names the entry at its site: `FileSystem.site?` is the location of that entry, whether or not
something stands there.  The calls that look at an entry, make it or remove it are described here by
the site or, for those that cross no final link, by the location that they find.
-/
namespace SmaliBuild.FileSystem
variable {fs a b : FileSystem} {dir l m r d : Location} {p : Path} {n : Name} {e : Entry}
variable {follow : Bool} {fs' : FileSystem}

/-- The location of the entry that a path names.  A path whose last segment is a dot, leads upwards
or is missing names none. -/
def site? (fs : FileSystem) (dir : Location) (p : Path) : Option Location :=
  match fs.place dir p with
  | .ok (d, .name n) => some (n :: d)
  | _ => none

/-! ## Locations -/

theorem locate_of_check (h : p.check = .ok ()) : fs.locate dir follow p =
    (fs.walk follow linkLimit (p.start dir) p.steps).mapError .os := by
  rw [locate, h]
  rfl

theorem mapError_eq_ok {α ε ε' : Type} {f : ε → ε'} {x : Except ε α} {v : α} :
    x.mapError f = .ok v ↔ x = .ok v := by
  cases x <;> simp [Except.mapError]

theorem locate_eq_ok_iff : fs.locate dir follow p = .ok l ↔
    p.check = .ok () ∧ fs.Leads follow linkLimit (p.start dir) p.steps l := by
  constructor
  · intro h
    have hc := check_of_locate h
    rw [locate_of_check hc, mapError_eq_ok, walk_eq_ok_iff] at h
    exact ⟨hc, h⟩
  · rintro ⟨hc, h⟩
    rw [locate_of_check hc, mapError_eq_ok, walk_eq_ok_iff]
    exact h

theorem text_ne_nil_of_check (h : p.check = .ok ()) : p.text ≠ [] := by
  intro ht
  have hnul : 0 ∉ p.text := by simp [ht]
  rw [Path.check, if_neg hnul, if_pos ht] at h
  cases h

theorem isSome_of_locate (h : fs.locate dir follow p = .ok l) : (fs.get? l).isSome := by
  obtain ⟨hc, hleads⟩ := locate_eq_ok_iff.1 h
  by_cases habs : p.isAbsolute = true
  · rw [Path.start, if_pos habs] at hleads
    exact hleads.isSome (by simp [get?_nil])
  · -- a relative path has a word, which needs the working directory to be there
    have hw : p.words ≠ [] := fun hw =>
      habs (Path.isAbsolute_of_words_nil (text_ne_nil_of_check hc) hw)
    obtain ⟨s, rest, hs⟩ := List.exists_cons_of_ne_nil hw
    rw [Path.start, if_neg habs] at hleads
    refine hleads.isSome ?_
    rw [Path.steps_eq, hs, List.cons_append] at hleads
    simp [(cases_of_walk hleads.walk_eq).1]

theorem locate_mono (hab : a.Within b) (h : a.locate dir follow p = .ok l) :
    b.locate dir follow p = .ok l := by
  rw [locate_eq_ok_iff] at h ⊢
  exact ⟨h.1, h.2.mono hab⟩

theorem locate_within (hab : a.Within b) (dir : Location) (follow : Bool) (p : Path) :
    a.locate dir follow p = b.locate dir follow p ∨
      a.locate dir follow p = .error (.os .noEntry) := by
  cases hc : p.check with
  | error e =>
    unfold locate
    rw [hc]
    exact Or.inl rfl
  | ok u =>
    rw [locate_of_check hc, locate_of_check hc]
    rcases walk_within hab follow linkLimit (p.start dir) p.steps with h | h
    · exact Or.inl (by rw [h])
    · exact Or.inr (by rw [h]; rfl)

theorem locate_following (h : fs.locate dir false p = .ok l)
    (hl : fs.get? l = some .directory) : fs.locate dir true p = .ok l := by
  obtain ⟨hc, hleads⟩ := locate_eq_ok_iff.1 h
  exact locate_eq_ok_iff.2 ⟨hc, hleads.following (by simp [hl])⟩

theorem noSlash_of_locate (h : fs.locate dir follow p = .ok l)
    (hl : fs.get? l ≠ some .directory) : p.endsWithSlash = false := by
  obtain ⟨-, hleads⟩ := locate_eq_ok_iff.1 h
  cases hslash : p.endsWithSlash with
  | false => rfl
  | true =>
    rw [Path.steps_eq, hslash, if_pos rfl] at hleads
    exact absurd (leads_append_dot.1 hleads).2 hl

theorem leads_words {links : Nat} (h : fs.Leads follow links l p.steps m)
    (hm : fs.get? m = some .directory) : fs.Leads true links l p.words m := by
  rw [Path.steps_eq] at h
  split at h
  · exact (leads_append_dot.1 h).1
  · rw [List.append_nil] at h
    exact h.following (by simp [hm])

theorem locate_entry_iff (hp : fs.locate dir follow p = .ok l) (hl : fs.get? l = some .directory)
    (hc : (p.entry n.bytes).check = .ok ()) :
    fs.locate dir false (p.entry n.bytes) = .ok r ↔
      r = n :: l ∧ Fits n.bytes ∧ (fs.get? (n :: l)).isSome := by
  rw [locate_eq_ok_iff, Path.steps_entry, Path.start_entry, and_iff_right hc]
  exact leads_append_name (leads_words (locate_eq_ok_iff.1 hp).2 hl) hl

theorem eq_cons_of_locate_entry (hp : fs.locate dir follow p = .ok l)
    (hl : fs.get? l = some .directory)
    (h : fs.locate dir false (p.entry n.bytes) = .ok r) : r = n :: l :=
  ((locate_entry_iff hp hl (check_of_locate h)).1 h).1

/-! ## Sites -/

theorem enclosing_of_words {before : List Path.Segment} {s : Path.Segment}
    (hc : p.check = .ok ()) (hw : p.words = before ++ [s]) :
    fs.enclosing dir p =
      match fs.walk true linkLimit (p.start dir) (before ++ [[dot]]) with
      | .ok d => .ok (d, some s)
      | .error e => .error (.os e) := by
  have hreverse : ((Path.segments p.text).filter (· ≠ [])).reverse = s :: before.reverse := by
    rw [← List.reverse_concat, ← hw]
    rfl
  unfold enclosing
  rw [hc, hreverse]
  simp only [bind, Except.bind, List.reverse_reverse]
  cases fs.walk true linkLimit (p.start dir) (before ++ [[dot]]) <;> rfl

theorem enclosing_eq_ok (h : fs.enclosing dir p = .ok (d, some s)) :
    p.check = .ok () ∧ ∃ before, p.words = before ++ [s] ∧
      fs.Leads true linkLimit (p.start dir) before d ∧ fs.get? d = some .directory := by
  cases hc : p.check with
  | error e =>
    rw [enclosing, hc] at h
    cases h
  | ok u =>
    rcases List.eq_nil_or_concat p.words with hw | ⟨before, s', hw⟩
    · have hnil : (Path.segments p.text).filter (· ≠ []) = [] := hw
      rw [enclosing, hc, hnil] at h
      cases h
    · rw [List.concat_eq_append] at hw
      rw [enclosing_of_words hc hw] at h
      cases hd : fs.walk true linkLimit (p.start dir) (before ++ [[dot]]) with
      | error e =>
        rw [hd] at h
        cases h
      | ok d' =>
        rw [hd] at h
        obtain ⟨rfl, hs⟩ := Prod.mk.inj (Except.ok.inj h)
        obtain rfl := Option.some.inj hs
        obtain ⟨hb, hdir⟩ := leads_append_dot.1 (walk_eq_ok_iff.1 hd)
        exact ⟨rfl, before, hw, hb, hdir⟩

theorem place_of_enclosing {s : Path.Segment} (h : fs.enclosing dir p = .ok (d, some s)) :
    fs.place dir p =
      if s = [dot] then .ok (d, .dot)
      else if s = Path.up then .ok (d, .up)
      else if nameLimit < s.length then .error (.os .nameTooLong)
      else match Name.ofBytes? s with
        | none => .error (.os .noEntry)
        | some n => .ok (d, .name n) := by
  unfold place
  rw [h]
  rfl

theorem place_of_enclosing_none (h : fs.enclosing dir p = .ok (d, none)) :
    fs.place dir p = .ok (d, .root) := by
  unfold place
  rw [h]
  rfl

theorem place_of_enclosing_error {e : IoError} (h : fs.enclosing dir p = .error e) :
    fs.place dir p = .error e := by
  unfold place
  rw [h]
  rfl

theorem place_eq_name_iff : fs.place dir p = .ok (d, .name n) ↔
    fs.enclosing dir p = .ok (d, some n.bytes) ∧ Fits n.bytes := by
  constructor
  · intro h
    cases henc : fs.enclosing dir p with
    | error e => cases ((place_of_enclosing_error henc).symm.trans h)
    | ok x =>
      obtain ⟨d', s⟩ := x
      cases s with
      | none => cases ((place_of_enclosing_none henc).symm.trans h)
      | some s =>
        rw [place_of_enclosing henc] at h
        split at h
        · cases h
        split at h
        · cases h
        split at h
        · cases h
        next hs =>
        cases hn : Name.ofBytes? s with
        | none =>
          rw [hn] at h
          cases h
        | some n' =>
          simp only [hn, Except.ok.injEq, Prod.mk.injEq, Last.name.injEq] at h
          obtain ⟨rfl, rfl⟩ := h
          obtain rfl := ofBytes?_eq_some hn
          exact ⟨rfl, Nat.not_lt.1 hs⟩
  · rintro ⟨henc, hs⟩
    rw [place_of_enclosing henc, if_neg n.bytes_ne_dot, if_neg n.bytes_ne_up,
      if_neg (Nat.not_lt.2 hs), Name.ofBytes?_bytes]

theorem site?_of_place (h : fs.place dir p = .ok (d, .name n)) : fs.site? dir p = some (n :: d) := by
  unfold site?
  rw [h]

theorem place_of_site (h : fs.site? dir p = some l) :
    ∃ d n, l = n :: d ∧ fs.place dir p = .ok (d, .name n) := by
  unfold site? at h
  split at h
  · next d n hp => exact ⟨d, n, (Option.some.inj h).symm, hp⟩
  · cases h

/-- The site of a path is named by its last word in the directory that the words before lead to. -/
theorem site?_eq_some_iff : fs.site? dir p = some l ↔ p.check = .ok () ∧
    ∃ before d n, l = n :: d ∧ p.words = before ++ [n.bytes] ∧ Fits n.bytes ∧
      fs.Leads true linkLimit (p.start dir) before d ∧ fs.get? d = some .directory := by
  constructor
  · intro h
    obtain ⟨d, n, rfl, hp⟩ := place_of_site h
    obtain ⟨henc, hs⟩ := place_eq_name_iff.1 hp
    obtain ⟨hc, before, hw, hb, hd⟩ := enclosing_eq_ok henc
    exact ⟨hc, before, d, n, rfl, hw, hs, hb, hd⟩
  · rintro ⟨hc, before, d, n, rfl, hw, hs, hb, hd⟩
    refine site?_of_place (place_eq_name_iff.2 ⟨?_, hs⟩)
    rw [enclosing_of_words hc hw, walk_eq_ok_iff.2 (leads_append_dot.2 ⟨hb, hd⟩)]

theorem site?_ne_nil (h : fs.site? dir p = some l) : l ≠ [] := by
  obtain ⟨d, n, rfl, _⟩ := place_of_site h
  simp

theorem site?_mono (hab : a.Within b) (h : a.site? dir p = some l) : b.site? dir p = some l := by
  rw [site?_eq_some_iff] at h ⊢
  obtain ⟨hc, before, d, n, rfl, hw, hs, hb, hd⟩ := h
  exact ⟨hc, before, d, n, rfl, hw, hs, hb.mono hab, hab.directory hd⟩

theorem site?_at_root (fs : FileSystem) (hcheck : p.check = .ok ()) (hwords : p.words = [n.bytes])
    (hfits : Fits n.bytes) : fs.site? [] p = some [n] := by
  have hstart : p.start [] = [] := ite_self _
  exact site?_eq_some_iff.2 ⟨hcheck, [], [], n, rfl, hwords, hfits, hstart.symm ▸ .done, get?_nil fs⟩

theorem locate_of_site (h : fs.site? dir p = some l) (hslash : p.endsWithSlash = false) :
    fs.locate dir false p = if (fs.get? l).isSome then .ok l else .error (.os .noEntry) := by
  obtain ⟨hc, before, d, n, rfl, hw, hs, hb, hd⟩ := site?_eq_some_iff.1 h
  rw [locate_of_check hc, Path.steps_eq, hslash, hw]
  simp only [Bool.false_eq_true, if_false, List.append_nil]
  rw [walk_append_name hb hd hs]
  split <;> rfl

theorem locate_of_site_directory (h : fs.site? dir p = some l)
    (hl : fs.get? l = some .directory) : fs.locate dir false p = .ok l := by
  obtain ⟨hc, before, d, n, rfl, hw, hs, hb, hd⟩ := site?_eq_some_iff.1 h
  have hn := (leads_append_name (r := n :: d) hb hd).2 ⟨rfl, hs, by simp [hl]⟩
  refine locate_eq_ok_iff.2 ⟨hc, ?_⟩
  rw [Path.steps_eq, hw]
  split
  · exact leads_append_dot.2 ⟨hn.following (by simp [hl]), hl⟩
  · rwa [List.append_nil]

theorem locate_of_site_plain (h : fs.site? dir p = some l) (hslash : p.endsWithSlash = false)
    (he : fs.get? l = some e) (hlink : ∀ target, e ≠ .link target) :
    fs.locate dir true p = .ok l := by
  have hloc := locate_of_site h hslash
  rw [he] at hloc
  obtain ⟨hc, hleads⟩ := locate_eq_ok_iff.1 hloc
  refine locate_eq_ok_iff.2 ⟨hc, hleads.following fun target ht => hlink target ?_⟩
  exact Option.some.inj (he.symm.trans ht)

/-- Unless its site holds a link, a path leads nowhere else. -/
theorem eq_site_of_locate (h : fs.site? dir p = some m)
    (hlink : ∀ target, fs.get? m ≠ some (.link target)) (hl : fs.locate dir true p = .ok l) :
    l = m := by
  obtain ⟨-, before, d, n, rfl, hw, hs, hb, hd⟩ := site?_eq_some_iff.1 h
  obtain ⟨-, hleads⟩ := locate_eq_ok_iff.1 hl
  rw [Path.steps_eq, hw, List.append_assoc, List.singleton_append] at hleads
  obtain ⟨left, -, heq⟩ := hb.append (by simp [hd])
  have hwalk := hleads.walk_eq
  rw [heq _ _ (by simp), walk_name hd hs] at hwalk
  have hrest : fs.walk true left (n :: d) (if p.endsWithSlash then [[dot]] else []) = .ok l := by
    cases he : fs.get? (n :: d) with
    | none => simp [he] at hwalk
    | some e =>
      cases e with
      | link target => exact absurd he (hlink target)
      | directory | file => simpa [he] using hwalk
  split at hrest
  · rw [walk_dot (cases_of_walk hrest).1, walk_nil] at hrest
    exact (Except.ok.inj hrest).symm
  · rw [walk_nil] at hrest
    exact (Except.ok.inj hrest).symm

/-! ## Looking -/

theorem lstat_eq_ok_iff : fs.lstat dir p = .ok e ↔
    ∃ l, fs.locate dir false p = .ok l ∧ fs.get? l = some e := by
  unfold lstat
  cases fs.locate dir false p with
  | error e => simp [bind, Except.bind]
  | ok l =>
    cases hl : fs.get? l with
    | none => simp [bind, Except.bind, hl, throw, throwThe, MonadExceptOf.throw]
    | some e => simp [bind, Except.bind, hl, pure, Except.pure]

theorem stat_eq_ok_iff : fs.stat dir p = .ok e ↔
    ∃ l, fs.locate dir true p = .ok l ∧ fs.get? l = some e := by
  unfold stat
  cases fs.locate dir true p with
  | error e => simp [bind, Except.bind]
  | ok l =>
    cases hl : fs.get? l with
    | none => simp [bind, Except.bind, hl, throw, throwThe, MonadExceptOf.throw]
    | some e => simp [bind, Except.bind, hl, pure, Except.pure]

theorem lstat_of_locate (h : fs.locate dir false p = .ok l) :
    fs.lstat dir p = match fs.get? l with
      | some e => .ok e
      | none => .error (.os .noEntry) := by
  unfold lstat
  rw [h]
  cases hl : fs.get? l with
  | none => simp [bind, Except.bind, hl, throw, throwThe, MonadExceptOf.throw]
  | some e => simp [bind, Except.bind, hl, pure, Except.pure]

theorem lstat_of_locate_error {x : IoError} (h : fs.locate dir false p = .error x) :
    fs.lstat dir p = .error x := by
  unfold lstat
  rw [h]
  rfl

theorem locate_error_of_lstat {x : IoError} (h : fs.lstat dir p = .error x) :
    ∀ l, fs.locate dir false p ≠ .ok l := by
  intro l hl
  obtain ⟨e, he⟩ := Option.isSome_iff_exists.1 (isSome_of_locate hl)
  rw [lstat_of_locate hl, he] at h
  cases h

/-- With fewer entries a look at a path comes out the same, unless nothing is left to be seen. -/
theorem lstat_within (hab : a.Within b) (dir : Location) (p : Path) :
    a.lstat dir p = .error (.os .noEntry) ∨
      (∃ x, a.lstat dir p = .error x ∧ b.lstat dir p = .error x) ∨
      ∃ e e', a.lstat dir p = .ok e ∧ b.lstat dir p = .ok e' := by
  rcases locate_within hab dir false p with h | h
  · cases hb : b.locate dir false p with
    | error x =>
      rw [hb] at h
      exact Or.inr (Or.inl ⟨x, lstat_of_locate_error h, lstat_of_locate_error hb⟩)
    | ok l =>
      rw [hb] at h
      rw [lstat_of_locate h, lstat_of_locate hb]
      cases hl : a.get? l with
      | none => exact Or.inl rfl
      | some e =>
        obtain ⟨e', he', -⟩ := Option.map_eq_some_iff.1 (hab l e hl)
        rw [he']
        exact Or.inr (Or.inr ⟨e, e', rfl, rfl⟩)
  · exact Or.inl (lstat_of_locate_error h)

theorem lstat_of_site (h : fs.site? dir p = some l) (hslash : p.endsWithSlash = false) :
    fs.lstat dir p = match fs.get? l with
      | some e => .ok e
      | none => .error (.os .noEntry) := by
  unfold lstat
  rw [locate_of_site h hslash]
  cases hl : fs.get? l with
  | none => rfl
  | some e => simp [bind, Except.bind, hl, pure, Except.pure]

theorem list_eq_ok_iff {names : List Name} : fs.list dir p = .ok names ↔
    ∃ l, fs.locate dir true p = .ok l ∧ fs.get? l = some .directory ∧ names = fs.names l := by
  unfold list
  cases fs.locate dir true p with
  | error e => simp [bind, Except.bind]
  | ok l =>
    cases hl : fs.get? l with
    | none => simp [bind, Except.bind, hl, throw, throwThe, MonadExceptOf.throw]
    | some e =>
      cases e <;>
        simp [bind, Except.bind, hl, pure, Except.pure, throw, throwThe, MonadExceptOf.throw,
          eq_comm]

theorem isDirectory_iff : fs.isDirectory dir p = true ↔
    ∃ l, fs.locate dir true p = .ok l ∧ fs.get? l = some .directory := by
  unfold isDirectory
  cases h : fs.stat dir p with
  | error x =>
    simp only [Bool.false_eq_true, false_iff]
    rintro ⟨l, hl, hd⟩
    cases h.symm.trans (stat_eq_ok_iff.2 ⟨l, hl, hd⟩)
  | ok e =>
    obtain ⟨l, hl, he⟩ := stat_eq_ok_iff.1 h
    simp only [Entry.isDirectory_iff]
    constructor
    · rintro rfl
      exact ⟨l, hl, he⟩
    · rintro ⟨k, hk, hd⟩
      obtain rfl := Except.ok.inj (hl.symm.trans hk)
      exact Option.some.inj (he.symm.trans hd)

theorem isDirectory_of_locate (h : fs.locate dir true p = .ok l) (he : fs.get? l = some e) :
    fs.isDirectory dir p = e.isDirectory := by
  unfold isDirectory
  rw [stat_eq_ok_iff.2 ⟨l, h, he⟩]

theorem read_of_locate {content : Bytes} {x : Bool} (h : fs.locate dir true p = .ok l)
    (he : fs.get? l = some (.file content x)) : fs.read dir p = .ok content := by
  unfold read
  rw [stat_eq_ok_iff.2 ⟨l, h, he⟩]
  rfl

/-! ## Removing -/

theorem unlink_eq_ok_iff : fs.unlink dir p = .ok fs' ↔
    ∃ l e, fs.site? dir p = some l ∧ fs.get? l = some e ∧ e ≠ .directory ∧
      p.endsWithSlash = false ∧ fs' = fs.prune l := by
  unfold unlink site?
  cases hp : fs.place dir p with
  | error e => simp [bind, Except.bind]
  | ok x =>
    obtain ⟨d, last⟩ := x
    cases last with
    | dot | up | root => simp [bind, Except.bind, throw, throwThe, MonadExceptOf.throw]
    | name n =>
      cases he : fs.get? (n :: d) with
      | none => simp [bind, Except.bind, he, throw, throwThe, MonadExceptOf.throw]
      | some e =>
        cases e <;> cases hslash : p.endsWithSlash <;>
          simp [bind, Except.bind, he, pure, Except.pure, throw, throwThe, MonadExceptOf.throw,
            eq_comm]

theorem rmdir_eq_ok_iff : fs.rmdir dir p = .ok fs' ↔
    ∃ l, fs.site? dir p = some l ∧ fs.get? l = some .directory ∧ fs.names l = [] ∧
      fs' = fs.prune l := by
  unfold rmdir site?
  cases hp : fs.place dir p with
  | error e => simp [bind, Except.bind]
  | ok x =>
    obtain ⟨d, last⟩ := x
    cases last with
    | dot | up | root => simp [bind, Except.bind, throw, throwThe, MonadExceptOf.throw]
    | name n =>
      cases he : fs.get? (n :: d) with
      | none => simp [bind, Except.bind, he, throw, throwThe, MonadExceptOf.throw]
      | some e =>
        cases e with
        | file | link => simp [bind, Except.bind, he, throw, throwThe, MonadExceptOf.throw]
        | directory =>
          by_cases hn : fs.names (n :: d) = []
          · simp only [bind, Except.bind, he, hn, if_true, pure, Except.pure, Except.ok.injEq,
              Option.some.injEq, exists_eq_left', true_and]
            exact eq_comm
          · simp [bind, Except.bind, he, hn, throw, throwThe, MonadExceptOf.throw]

/-! ## Making -/

theorem create_of_place (hp : fs.place dir p = .ok (d, .name n)) (hn : fs.get? (n :: d) = none)
    (hd : fs.get? d = some .directory) :
    fs.create dir p e = .ok (fs.insert n d e hn hd, n :: d) := by
  unfold create
  rw [hp]
  simp only [bind, Except.bind]
  split
  · rfl
  · next h => exact absurd hd (h ·)
  · next h => simp [hn] at h

theorem create_eq_ok (h : fs.create dir p e = .ok (fs', l)) :
    fs.site? dir p = some l ∧ fs.get? l = none ∧
      ∀ m, fs'.get? m = if m = l then some e else fs.get? m := by
  cases hp : fs.place dir p with
  | error e =>
    unfold create at h
    rw [hp] at h
    cases h
  | ok x =>
    obtain ⟨d, last⟩ := x
    cases last with
    | dot | up | root =>
      unfold create at h
      rw [hp] at h
      cases h
    | name n =>
      have hs := site?_of_place hp
      have hd := (enclosing_eq_ok (place_eq_name_iff.1 hp).1).2.choose_spec.2.2
      cases hn : fs.get? (n :: d) with
      | none =>
        rw [create_of_place hp hn hd] at h
        obtain ⟨rfl, rfl⟩ := Prod.mk.inj (Except.ok.inj h)
        exact ⟨hs, hn, fun m => get?_insert hn hd⟩
      | some e' =>
        unfold create at h
        rw [hp] at h
        simp only [bind, Except.bind] at h
        split at h
        · next h' _ => simp [hn] at h'
        · cases h
        · cases h

theorem createFile_eq_ok (h : fs.createFile dir p = .ok (fs', l)) :
    fs.site? dir p = some l ∧ fs.get? l = none ∧
      ∀ m, fs'.get? m = if m = l then some (.file [] false) else fs.get? m := by
  unfold createFile at h
  cases ha : fs.asksForDirectory dir p with
  | error e => simp [ha, bind, Except.bind] at h
  | ok ask =>
    cases ask with
    | true => simp [ha, bind, Except.bind, throw, throwThe, MonadExceptOf.throw] at h
    | false =>
      cases hp : fs.place dir p with
      | error e => simp [ha, hp, bind, Except.bind] at h
      | ok x =>
        obtain ⟨d, last⟩ := x
        cases last with
        | dot | up | root =>
          simp [ha, hp, bind, Except.bind, throw, throwThe, MonadExceptOf.throw] at h
        | name n =>
          simp only [ha, hp, bind, Except.bind, Bool.false_eq_true, if_false] at h
          exact create_eq_ok h

theorem createFile_insert (h : fs.site? dir p = some (n :: d)) (hl : fs.get? (n :: d) = none)
    (hslash : p.endsWithSlash = false) : ∃ hd : fs.get? d = some .directory,
      fs.createFile dir p = .ok (fs.insert n d (.file [] false) hl hd, n :: d) := by
  obtain ⟨d', n', heq, hp⟩ := place_of_site h
  obtain ⟨rfl, rfl⟩ := List.cons.inj heq
  have henc := (place_eq_name_iff.1 hp).1
  have hd := (enclosing_eq_ok henc).2.choose_spec.2.2
  refine ⟨hd, ?_⟩
  unfold createFile asksForDirectory
  rw [henc]
  simp only [bind, Except.bind, pure, Except.pure, hslash, Bool.false_and, Bool.false_eq_true,
    if_false, hp]
  exact create_of_place hp hl hd

theorem createFile_of_site (h : fs.site? dir p = some l) (hl : fs.get? l = none)
    (hslash : p.endsWithSlash = false) : ∃ made, fs.createFile dir p = .ok (made, l) := by
  obtain ⟨d, n, rfl, -⟩ := place_of_site h
  obtain ⟨hd, hmade⟩ := createFile_insert h hl hslash
  exact ⟨_, hmade⟩

theorem createFile_of_slash (h : fs.site? dir p = some l) (hslash : p.endsWithSlash = true) :
    fs.createFile dir p = .error (.os .isDirectory) := by
  obtain ⟨d, n, rfl, hp⟩ := place_of_site h
  unfold createFile asksForDirectory
  rw [(place_eq_name_iff.1 hp).1]
  simp [bind, Except.bind, pure, Except.pure, hslash, n.bytes_ne_dot, n.bytes_ne_up, throw,
    throwThe, MonadExceptOf.throw]

theorem noSlash_of_createFile (h : fs.createFile dir p = .ok (fs', l)) :
    p.endsWithSlash = false := by
  obtain ⟨hsite, -, -⟩ := createFile_eq_ok h
  rw [← Bool.not_eq_true]
  intro hslash
  cases (createFile_of_slash hsite hslash).symm.trans h

theorem createFile_of_check {x : IoError} (hc : p.check = .error x) :
    fs.createFile dir p = .error x := by
  unfold createFile asksForDirectory enclosing
  rw [hc]
  rfl

end SmaliBuild.FileSystem
