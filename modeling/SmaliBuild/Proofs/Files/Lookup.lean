import SmaliBuild.Proofs.Files.Table
import SmaliBuild.Proofs.Path.Segments
/-!
# Look-ups that succeed

`FileSystem.Leads` is the derivation of a successful look-up, one rule for each step that a walk can
take; `walk_eq_ok_iff` says that it is the executable walk.  A look-up meets only what stands on its
way, so it comes out the same in a file system that has more entries (`Leads.mono`); in one that has
fewer it may meet a gap instead (`walk_within`).  A look-up of several segments is one of the first
segments followed by one of the rest (`Leads.append`, `Leads.of_append`).
-/
namespace SmaliBuild.FileSystem

/-- A segment that is short enough for a look-up. -/
def Fits (s : Path.Segment) : Prop := s.length ≤ nameLimit

/-- The segments `steps` lead from `l` to `r`, over `links` links at most; with `follow` off, a link
that comes last is not crossed. -/
inductive Leads (fs : FileSystem) : Bool → Nat → Location → List Path.Segment → Location → Prop
  | done {follow links l} : Leads fs follow links l [] l
  | dot {follow links l rest r} : fs.get? l = some .directory → Leads fs follow links l rest r →
      Leads fs follow links l ([dot] :: rest) r
  | up {follow links l rest r} : fs.get? l = some .directory →
      Leads fs follow links l.tail rest r → Leads fs follow links l (Path.up :: rest) r
  | stop {links l n target} : fs.get? l = some .directory → Fits n.bytes →
      fs.get? (n :: l) = some (.link target) → Leads fs false links l [n.bytes] (n :: l)
  | cross {follow links l n target rest r} : fs.get? l = some .directory → Fits n.bytes →
      fs.get? (n :: l) = some (.link target) → (rest ≠ [] ∨ follow = true) →
      Leads fs follow links (target.start l) (target.steps ++ rest) r →
      Leads fs follow (links + 1) l (n.bytes :: rest) r
  | enter {follow links l n e rest r} : fs.get? l = some .directory → Fits n.bytes →
      fs.get? (n :: l) = some e → (∀ target, e ≠ .link target) →
      Leads fs follow links (n :: l) rest r → Leads fs follow links l (n.bytes :: rest) r

variable {fs a b : FileSystem} {follow : Bool} {links : Nat} {l m r : Location} {n : Name}
variable {s : Path.Segment} {steps rest : List Path.Segment}

theorem ofBytes?_eq_some {s : OsString} {n : Name} (h : Name.ofBytes? s = some n) :
    s = n.bytes := by
  unfold Name.ofBytes? at h
  split at h
  · obtain rfl := Option.some.inj h
    rfl
  · cases h

/-! ## The executable walk -/

theorem walk_nil : fs.walk follow links l [] = .ok l := by rw [walk]

theorem walk_dot (h : fs.get? l = some .directory) :
    fs.walk follow links l ([dot] :: rest) = fs.walk follow links l rest := by
  rw [walk, h]
  simp

theorem walk_up (h : fs.get? l = some .directory) :
    fs.walk follow links l (Path.up :: rest) = fs.walk follow links l.tail rest := by
  rw [walk, h]
  simp [Path.up]

theorem walk_name (h : fs.get? l = some .directory) (hs : Fits n.bytes) :
    fs.walk follow links l (n.bytes :: rest) =
      match fs.get? (n :: l) with
      | none => .error .noEntry
      | some (.link target) =>
        if rest = [] ∧ follow = false then .ok (n :: l)
        else match links with
          | 0 => .error .linkLoop
          | links + 1 => fs.walk follow links (target.start l) (target.steps ++ rest)
      | some _ => fs.walk follow links (n :: l) rest := by
  have hfits := Nat.not_lt.2 hs
  rw [walk, h]
  cases he : fs.get? (n :: l) with
  | none => simp [n.bytes_ne_dot, n.bytes_ne_up, hfits, he]
  | some e => cases e <;> cases links <;> simp [n.bytes_ne_dot, n.bytes_ne_up, hfits, he]

theorem cases_of_walk (h : fs.walk follow links l (s :: rest) = .ok r) :
    fs.get? l = some .directory ∧
      (s = [dot] ∨ s = Path.up ∨ ∃ n : Name, s = n.bytes ∧ Fits n.bytes) := by
  rw [walk] at h
  cases hl : fs.get? l with
  | none => simp [hl] at h
  | some e =>
    cases e with
    | file | link => simp [hl] at h
    | directory =>
      refine ⟨rfl, ?_⟩
      by_cases hdot : s = [dot]
      · exact Or.inl hdot
      by_cases hup : s = Path.up
      · exact Or.inr (Or.inl hup)
      by_cases hs : nameLimit < s.length
      · simp [hl, hdot, hup, hs] at h
      cases hn : Name.ofBytes? s with
      | none => simp [hl, hdot, hup, hs, hn] at h
      | some n =>
        obtain rfl := ofBytes?_eq_some hn
        exact Or.inr (Or.inr ⟨n, rfl, Nat.not_lt.1 hs⟩)

theorem Leads.of_walk (steps : List Path.Segment) (links : Nat) (l : Location)
    (h : fs.walk follow links l steps = .ok r) : fs.Leads follow links l steps r := by
  match steps with
  | [] =>
    rw [walk_nil] at h
    obtain rfl := Except.ok.inj h
    exact .done
  | s :: rest =>
    obtain ⟨hl, rfl | rfl | ⟨n, rfl, hs⟩⟩ := cases_of_walk h
    · rw [walk_dot hl] at h
      exact .dot hl (of_walk rest links l h)
    · rw [walk_up hl] at h
      exact .up hl (of_walk rest links l.tail h)
    · rw [walk_name hl hs] at h
      cases he : fs.get? (n :: l) with
      | none =>
        rw [he] at h
        cases h
      | some e =>
        rw [he] at h
        cases e with
        | directory => exact .enter hl hs he (by simp) (of_walk rest links (n :: l) h)
        | file => exact .enter hl hs he (by simp) (of_walk rest links (n :: l) h)
        | link target =>
          dsimp only at h
          split at h
          · next hlast =>
            obtain ⟨rfl, rfl⟩ := hlast
            obtain rfl := Except.ok.inj h
            exact .stop hl hs he
          · next hlast =>
            cases links with
            | zero => cases h
            | succ links =>
              refine .cross hl hs he ?_ (of_walk (target.steps ++ rest) links (target.start l) h)
              by_cases hr : rest = []
              · exact Or.inr (by simpa [hr] using hlast)
              · exact Or.inl hr
termination_by (links, steps.length)

theorem Leads.walk_eq (h : fs.Leads follow links l steps r) :
    fs.walk follow links l steps = .ok r := by
  induction h with
  | done => exact walk_nil
  | dot hl _ ih => rw [walk_dot hl, ih]
  | up hl _ ih => rw [walk_up hl, ih]
  | stop hl hs ht =>
    rw [walk_name hl hs, ht]
    simp
  | cross hl hs ht hlast _ ih =>
    rw [walk_name hl hs, ht]
    simp only [ih]
    rw [if_neg]
    rintro ⟨hr, hf⟩
    rcases hlast with h | h
    · exact h hr
    · rw [hf] at h
      cases h
  | @enter follow links l n e rest r hl hs he hlink _ ih =>
    rw [walk_name hl hs, he]
    cases e with
    | directory => exact ih
    | file => exact ih
    | link target => exact absurd rfl (hlink target)

/-- The derivations are the successful walks. -/
theorem walk_eq_ok_iff :
    fs.walk follow links l steps = .ok r ↔ fs.Leads follow links l steps r :=
  ⟨.of_walk _ _ _, Leads.walk_eq⟩

theorem Leads.unique {r' : Location} (h : fs.Leads follow links l steps r)
    (h' : fs.Leads follow links l steps r') : r = r' :=
  Except.ok.inj (h.walk_eq.symm.trans h'.walk_eq)

theorem Leads.fits (h : fs.Leads follow links l steps r) (hn : n.bytes ∈ steps) : Fits n.bytes := by
  induction h with
  | done => cases hn
  | dot _ _ ih =>
    rcases List.mem_cons.1 hn with heq | hn
    · exact absurd heq n.bytes_ne_dot
    · exact ih hn
  | up _ _ ih =>
    rcases List.mem_cons.1 hn with heq | hn
    · exact absurd heq n.bytes_ne_up
    · exact ih hn
  | stop _ hs => exact List.mem_singleton.1 hn ▸ hs
  | cross _ hs _ _ _ ih =>
    rcases List.mem_cons.1 hn with heq | hn
    · exact heq ▸ hs
    · exact ih (List.mem_append_right _ hn)
  | enter _ hs _ _ _ ih =>
    rcases List.mem_cons.1 hn with heq | hn
    · exact heq ▸ hs
    · exact ih hn

theorem Leads.isSome (h : fs.Leads follow links l steps r) (hl : (fs.get? l).isSome) :
    (fs.get? r).isSome := by
  induction h with
  | done => exact hl
  | dot _ _ ih => exact ih hl
  | up _ _ ih => exact ih (get?_tail_isSome hl)
  | stop _ _ ht => simp [ht]
  | @cross _ _ l _ target _ _ _ _ _ _ _ ih =>
    apply ih
    unfold Path.start
    split
    · simp [get?_nil]
    · exact hl
  | enter _ _ he _ _ ih => exact ih (by simp [he])

/-! ## More entries -/

/-- What stands on the way of a look-up is enough for it. -/
theorem Leads.mono (hab : a.Within b) (h : a.Leads follow links l steps r) :
    b.Leads follow links l steps r := by
  induction h with
  | done => exact .done
  | dot hl _ ih => exact .dot (hab.directory hl) ih
  | up hl _ ih => exact .up (hab.directory hl) ih
  | stop hl hs ht => exact .stop (hab.directory hl) hs (hab.link ht)
  | cross hl hs ht hlast _ ih => exact .cross (hab.directory hl) hs (hab.link ht) hlast ih
  | @enter follow links l n e rest r hl hs he hlink _ ih =>
    cases e with
    | directory => exact .enter (hab.directory hl) hs (hab.directory he) (by simp) ih
    | file content x =>
      obtain ⟨content', x', he'⟩ := hab.file he
      exact .enter (hab.directory hl) hs he' (by simp) ih
    | link target => exact absurd rfl (hlink target)

/-- With fewer entries a walk comes out the same, unless it meets a gap. -/
theorem walk_within (hab : a.Within b) (follow : Bool) (links : Nat) (l : Location)
    (steps : List Path.Segment) :
    a.walk follow links l steps = b.walk follow links l steps ∨
      a.walk follow links l steps = .error .noEntry := by
  match steps with
  | [] => exact Or.inl (by rw [walk_nil, walk_nil])
  | s :: rest =>
    cases hl : a.get? l with
    | none => exact Or.inr (by rw [walk, hl])
    | some e =>
      cases e with
      | file content x =>
        obtain ⟨content', x', hbl⟩ := hab.file hl
        exact Or.inl (by rw [walk, walk, hl, hbl])
      | link target => exact Or.inl (by rw [walk, walk, hl, hab.link hl])
      | directory =>
        have hbl := hab.directory hl
        by_cases hdot : s = [dot]
        · rw [hdot, walk_dot hl, walk_dot hbl]
          exact walk_within hab follow links l rest
        by_cases hup : s = Path.up
        · rw [hup, walk_up hl, walk_up hbl]
          exact walk_within hab follow links l.tail rest
        by_cases hlong : nameLimit < s.length
        · refine Or.inl ?_
          rw [walk, walk, hl, hbl]
          simp [hdot, hup, hlong]
        cases hn : Name.ofBytes? s with
        | none =>
          refine Or.inl ?_
          rw [walk, walk, hl, hbl]
          simp [hdot, hup, hlong, hn]
        | some n =>
          obtain rfl := ofBytes?_eq_some hn
          have hfits : Fits n.bytes := Nat.not_lt.1 hlong
          rw [walk_name hl hfits, walk_name hbl hfits]
          cases he : a.get? (n :: l) with
          | none => exact Or.inr rfl
          | some e =>
            cases e with
            | directory =>
              rw [hab.directory he]
              exact walk_within hab follow links (n :: l) rest
            | file content x =>
              obtain ⟨content', x', hbe⟩ := hab.file he
              rw [hbe]
              exact walk_within hab follow links (n :: l) rest
            | link target =>
              rw [hab.link he]
              dsimp only
              split
              · exact Or.inl rfl
              · cases links with
                | zero => exact Or.inl rfl
                | succ links =>
                  exact walk_within hab follow links (target.start l) (target.steps ++ rest)
termination_by (links, steps.length)

/-! ## Parts of a look-up -/

theorem Leads.following (h : fs.Leads follow links l steps r)
    (hr : ∀ target, fs.get? r ≠ some (.link target)) : fs.Leads true links l steps r := by
  induction h with
  | done => exact .done
  | dot hl _ ih => exact .dot hl (ih hr)
  | up hl _ ih => exact .up hl (ih hr)
  | stop hl hs ht => exact absurd ht (hr _)
  | cross hl hs ht _ _ ih => exact .cross hl hs ht (Or.inr rfl) (ih hr)
  | enter hl hs he hlink _ ih => exact .enter hl hs he hlink (ih hr)

/-- After a look-up that does not end at a link, a further one goes on from where it led, with the
links that are left. -/
theorem Leads.append (h : fs.Leads follow links l steps m)
    (hm : ∀ target, fs.get? m ≠ some (.link target)) :
    ∃ left ≤ links, ∀ follow' rest, rest ≠ [] →
      fs.walk follow' links l (steps ++ rest) = fs.walk follow' left m rest := by
  induction h with
  | done => exact ⟨_, Nat.le_refl _, fun _ _ _ => rfl⟩
  | dot hl _ ih =>
    obtain ⟨left, hle, h⟩ := ih hm
    refine ⟨left, hle, fun follow' rest hr => ?_⟩
    rw [List.cons_append, walk_dot hl, h follow' rest hr]
  | up hl _ ih =>
    obtain ⟨left, hle, h⟩ := ih hm
    refine ⟨left, hle, fun follow' rest hr => ?_⟩
    rw [List.cons_append, walk_up hl, h follow' rest hr]
  | stop hl hs ht => exact absurd ht (hm _)
  | cross hl hs ht _ _ ih =>
    obtain ⟨left, hle, h⟩ := ih hm
    refine ⟨left, by omega, fun follow' rest hr => ?_⟩
    rw [List.cons_append, walk_name hl hs, ht, ← h follow' rest hr]
    simp [hr]
  | @enter follow links l n e steps m hl hs he hlink _ ih =>
    obtain ⟨left, hle, h⟩ := ih hm
    refine ⟨left, hle, fun follow' rest hr => ?_⟩
    rw [List.cons_append, walk_name hl hs, he, ← h follow' rest hr]
    cases e with
    | directory => rfl
    | file => rfl
    | link target => exact absurd rfl (hlink target)

theorem Leads.of_append (h : fs.Leads follow links l (steps ++ rest) r) (hr : rest ≠ []) :
    ∃ m, fs.Leads true links l steps m ∧ fs.get? m = some .directory := by
  generalize hx : steps ++ rest = x at h
  induction h generalizing steps with
  | done => simp_all
  | dot hl _ ih =>
    rcases List.append_eq_cons_iff.1 hx with ⟨rfl, rfl⟩ | ⟨steps, rfl, hrest⟩
    · exact ⟨_, .done, hl⟩
    · obtain ⟨m, hm, hd⟩ := ih hrest.symm
      exact ⟨m, .dot hl hm, hd⟩
  | up hl _ ih =>
    rcases List.append_eq_cons_iff.1 hx with ⟨rfl, rfl⟩ | ⟨steps, rfl, hrest⟩
    · exact ⟨_, .done, hl⟩
    · obtain ⟨m, hm, hd⟩ := ih hrest.symm
      exact ⟨m, .up hl hm, hd⟩
  | stop hl hs ht =>
    rcases List.append_eq_cons_iff.1 hx with ⟨rfl, rfl⟩ | ⟨steps, rfl, hrest⟩
    · exact ⟨_, .done, hl⟩
    · exact absurd (List.append_eq_nil_iff.1 hrest.symm).2 hr
  | cross hl hs ht _ _ ih =>
    rcases List.append_eq_cons_iff.1 hx with ⟨rfl, rfl⟩ | ⟨steps, rfl, rfl⟩
    · exact ⟨_, .done, hl⟩
    · obtain ⟨m, hm, hd⟩ := ih (List.append_assoc _ _ _)
      exact ⟨m, .cross hl hs ht (Or.inr rfl) hm, hd⟩
  | enter hl hs he hlink _ ih =>
    rcases List.append_eq_cons_iff.1 hx with ⟨rfl, rfl⟩ | ⟨steps, rfl, hrest⟩
    · exact ⟨_, .done, hl⟩
    · obtain ⟨m, hm, hd⟩ := ih hrest.symm
      exact ⟨m, .enter hl hs he hlink hm, hd⟩

theorem Leads.of_dot (h : fs.Leads follow links l [[SmaliBuild.dot]] r) :
    r = l ∧ fs.get? l = some .directory := by
  cases hl : fs.get? l with
  | none =>
    have hwalk := h.walk_eq
    rw [walk, hl] at hwalk
    cases hwalk
  | some e =>
    cases e with
    | directory =>
      have hwalk := h.walk_eq
      rw [walk_dot hl, walk_nil] at hwalk
      exact ⟨(Except.ok.inj hwalk).symm, rfl⟩
    | file | link =>
      have hwalk := h.walk_eq
      rw [walk, hl] at hwalk
      cases hwalk

theorem leads_append_dot :
    fs.Leads follow links l (steps ++ [[dot]]) r ↔
      fs.Leads true links l steps r ∧ fs.get? r = some .directory := by
  constructor
  · intro h
    obtain ⟨m, hm, hd⟩ := h.of_append (by simp)
    obtain ⟨left, _, heq⟩ := hm.append (by simp [hd])
    rw [← walk_eq_ok_iff, heq _ _ (by simp), walk_eq_ok_iff] at h
    obtain ⟨rfl, _⟩ := h.of_dot
    exact ⟨hm, hd⟩
  · rintro ⟨h, hd⟩
    obtain ⟨left, _, heq⟩ := h.append (by simp [hd])
    rw [← walk_eq_ok_iff, heq _ _ (by simp), walk_dot hd, walk_nil]

theorem walk_append_name (h : fs.Leads true links l steps m)
    (hm : fs.get? m = some .directory) (hs : Fits n.bytes) :
    fs.walk false links l (steps ++ [n.bytes]) =
      if (fs.get? (n :: m)).isSome then .ok (n :: m) else .error .noEntry := by
  obtain ⟨left, _, heq⟩ := h.append (by simp [hm])
  rw [heq _ _ (by simp), walk_name hm hs]
  cases fs.get? (n :: m) with
  | none => rfl
  | some e => cases e <;> simp [walk_nil]

theorem fits_of_leads_append (h : fs.Leads false links l (steps ++ [n.bytes]) r) :
    Fits n.bytes := by
  obtain ⟨m, hm, hd⟩ := h.of_append (by simp)
  obtain ⟨left, _, heq⟩ := hm.append (by simp [hd])
  rw [← walk_eq_ok_iff, heq _ _ (by simp)] at h
  obtain ⟨_, hdot | hup | ⟨n', hn, hfits⟩⟩ := cases_of_walk h
  · exact absurd hdot n.bytes_ne_dot
  · exact absurd hup n.bytes_ne_up
  · exact hn ▸ hfits

theorem leads_append_name (h : fs.Leads true links l steps m)
    (hm : fs.get? m = some .directory) :
    fs.Leads false links l (steps ++ [n.bytes]) r ↔
      r = n :: m ∧ Fits n.bytes ∧ (fs.get? (n :: m)).isSome := by
  constructor
  · intro hr
    have hs := fits_of_leads_append hr
    rw [← walk_eq_ok_iff, walk_append_name h hm hs] at hr
    split at hr
    · next hsome => exact ⟨(Except.ok.inj hr).symm, hs, hsome⟩
    · cases hr
  · rintro ⟨rfl, hs, hsome⟩
    rw [← walk_eq_ok_iff, walk_append_name h hm hs, if_pos hsome]

/-- The names on the way to an entry lead to it, unless it is a link. -/
theorem leads_names {e : Entry} (he : fs.get? l = some e) (hlink : ∀ target, e ≠ .link target)
    (hfits : ∀ n ∈ l, Fits n.bytes) : fs.Leads true links [] (l.reverse.map (·.bytes)) l := by
  induction l generalizing e with
  | nil => exact .done
  | cons n d ih =>
    have hd := get?_enclosing he
    have hbefore := ih hd (by simp) fun k hk => hfits k (List.mem_cons_of_mem n hk)
    have hlast := (leads_append_name hbefore hd).2 ⟨rfl, hfits n List.mem_cons_self, by simp [he]⟩
    rw [List.reverse_cons, List.map_append]
    exact hlast.following fun target ht => hlink target (Option.some.inj (he.symm.trans ht))

end SmaliBuild.FileSystem
