import Mathlib
import SmaliBuild.Toml.Document
/-!
# Keys of a document

No table of a document that was read has a key twice, at any depth (`Document.parse?_distinct`).  A
change that reaches into the tables keeps this if it keeps it at the place that it reaches
(`Entries.Distinct.under?`).  So a value can be looked up by its key, wherever it stands in its table.
-/
namespace SmaliBuild.Toml

/-- No table in the value has a key twice. -/
inductive Unique : Value → Prop
  | string (s : String) : Unique (.string s)
  | integer (n : Int) : Unique (.integer n)
  | float (x : Binary64) : Unique (.float x)
  | bool (b : Bool) : Unique (.bool b)
  | datetime : Unique .datetime
  | array {ofTables : Bool} {items : List Node} :
      (∀ item ∈ items, Unique item.2) → Unique (.array ofTables items)
  | table {form : TableForm} {entries : Entries} : (entries.map (·.1.text)).Nodup →
      (∀ e ∈ entries, Unique e.2.2) → Unique (.table form entries)

namespace Entries
variable {entries entries' : Entries} {k : Key} {node : Node} {key : String}

/-- The entries are those of a table that has no key twice and whose values have none. -/
structure Distinct (entries : Entries) : Prop where
  keys : (entries.map (·.1.text)).Nodup
  values : ∀ e ∈ entries, Unique e.2.2

theorem distinct_nil : Distinct [] := ⟨List.nodup_nil, fun _ he => absurd he List.not_mem_nil⟩

theorem Distinct.table (h : entries.Distinct) (form : TableForm) : Unique (.table form entries) :=
  .table h.keys h.values

theorem distinct_of_table {form : TableForm} (h : Unique (.table form entries)) : entries.Distinct := by
  cases h with
  | table hkeys hvalues => exact ⟨hkeys, hvalues⟩

/-! ## Looking up -/

theorem lookup?_eq_none_iff : entries.lookup? key = none ↔ key ∉ entries.map (·.1.text) := by
  simp [lookup?]

theorem exists_of_lookup? (h : entries.lookup? key = some node) :
    ∃ e ∈ entries, e.1.text = key ∧ e.2 = node := by
  obtain ⟨e, he, hnode⟩ := Option.map_eq_some_iff.1 h
  have hkey : e.1.text = key := by simpa using List.find?_some he
  exact ⟨e, List.mem_of_find?_eq_some he, hkey, hnode⟩

theorem lookup?_of_mem (h : (entries.map (·.1.text)).Nodup) {e : Key × Node} (he : e ∈ entries) :
    entries.lookup? e.1.text = some e.2 := by
  cases hlook : entries.lookup? e.1.text with
  | none => exact absurd (List.mem_map_of_mem he) (lookup?_eq_none_iff.1 hlook)
  | some node =>
    obtain ⟨e', he', hkey, rfl⟩ := exists_of_lookup? hlook
    rw [List.inj_on_of_nodup_map h he' he hkey]

theorem Distinct.lookup? (h : entries.Distinct) (hlook : entries.lookup? key = some node) :
    Unique node.2 := by
  obtain ⟨e, he, -, rfl⟩ := exists_of_lookup? hlook
  exact h.values e he

/-! ## Growing -/

theorem Distinct.add (h : entries.Distinct) (hnone : entries.lookup? k.text = none)
    (hnode : Unique node.2) : (entries.add k node).Distinct := by
  constructor
  · rw [Entries.add, List.map_append, List.nodup_append]
    refine ⟨h.keys, List.nodup_singleton _, fun a ha b hb heq => ?_⟩
    obtain rfl : b = k.text := List.mem_singleton.1 hb
    exact lookup?_eq_none_iff.1 hnone (heq ▸ ha)
  · intro e he
    cases List.mem_append.1 he with
    | inl he => exact h.values e he
    | inr he =>
      rw [List.mem_singleton.1 he]
      exact hnode

theorem Distinct.define? (h : entries.Distinct) (hnode : Unique node.2)
    (hdefine : entries.define? k node = some entries') : entries'.Distinct := by
  unfold Entries.define? at hdefine
  split at hdefine
  · cases hdefine
  · next hnone =>
    obtain rfl := Option.some.inj hdefine
    exact h.add hnone hnode

theorem map_key_change? {f : Node → Option Node} (hchange : entries.change? f key = some entries') :
    entries'.map (·.1.text) = entries.map (·.1.text) := by
  induction entries generalizing entries' with
  | nil => cases hchange
  | cons e entries ih =>
    unfold Entries.change? at hchange
    split at hchange
    · obtain ⟨node, -, rfl⟩ := Option.map_eq_some_iff.1 hchange
      rfl
    · obtain ⟨rest, hrest, rfl⟩ := Option.map_eq_some_iff.1 hchange
      rw [List.map_cons, List.map_cons, ih hrest]

theorem values_change? {f : Node → Option Node} (h : ∀ e ∈ entries, Unique e.2.2)
    (hf : ∀ node node', f node = some node' → Unique node'.2)
    (hchange : entries.change? f key = some entries') : ∀ e ∈ entries', Unique e.2.2 := by
  induction entries generalizing entries' with
  | nil => cases hchange
  | cons e entries ih =>
    rw [List.forall_mem_cons] at h
    unfold Entries.change? at hchange
    split at hchange
    · obtain ⟨node, hnode, rfl⟩ := Option.map_eq_some_iff.1 hchange
      exact List.forall_mem_cons.2 ⟨hf _ _ hnode, h.2⟩
    · obtain ⟨rest, hrest, rfl⟩ := Option.map_eq_some_iff.1 hchange
      exact List.forall_mem_cons.2 ⟨h.1, ih h.2 hrest⟩

theorem Distinct.change (h : entries.Distinct) (hnode : Unique node.2)
    (hchange : entries.change? (fun _ => some node) key = some entries') : entries'.Distinct where
  keys := map_key_change? hchange ▸ h.keys
  values := values_change? h.values (fun _ _ heq => Option.some.inj heq ▸ hnode) hchange

/-- A change deeper down keeps every key single if it does so where it is made. -/
theorem Distinct.under? {dotted : Bool} {f : TableForm → Entries → Option Entries}
    (hf : ∀ form entries entries', entries.Distinct → f form entries = some entries' →
      entries'.Distinct) (path : List Key) {form : TableForm} (h : entries.Distinct)
    (hunder : under? dotted f path form entries = some entries') : entries'.Distinct := by
  induction path generalizing form entries entries' with
  | nil => exact hf form entries entries' h hunder
  | cons k path ih =>
    have hinto {form : TableForm} {inner : Entries} {table : Value} (hinner : inner.Distinct)
        (htable : (Entries.under? dotted f path form inner).map (.table form) = some table) :
        Unique table := by
      obtain ⟨changed, hchanged, rfl⟩ := Option.map_eq_some_iff.1 htable
      exact (ih hinner hchanged).table form
    unfold Entries.under? at hunder
    dsimp only at hunder
    split at hunder
    · next hnone =>
      obtain ⟨table, htable, hadd⟩ := Option.bind_eq_some_iff.1 hunder
      obtain rfl := Option.some.inj hadd
      exact h.add hnone (hinto distinct_nil htable)
    · next span form inner hlook =>
      split at hunder
      · cases hunder
      · obtain ⟨table, htable, hchange⟩ := Option.bind_eq_some_iff.1 hunder
        exact h.change (hinto (distinct_of_table (h.lookup? hlook)) htable) hchange
    · next span items hlook =>
      cases h.lookup? hlook with
      | array hitems =>
      split at hunder
      · next last form inner hlast =>
        obtain ⟨table, htable, hchange⟩ := Option.bind_eq_some_iff.1 hunder
        have hinner : Distinct inner := distinct_of_table (hitems _ (List.mem_of_getLast? hlast))
        refine h.change (.array fun item hitem => ?_) hchange
        cases List.mem_append.1 hitem with
        | inl hitem => exact hitems item (List.mem_of_mem_dropLast hitem)
        | inr hitem =>
          rw [List.mem_singleton.1 hitem]
          exact hinto hinner htable
      · cases hunder
    · cases hunder

theorem Distinct.filter (h : entries.Distinct) (p : Key × Node → Bool) :
    Distinct (List.filter p entries) where
  keys := h.keys.sublist (List.filter_sublist.map _)
  values e he := h.values e (List.mem_of_mem_filter he)

theorem Distinct.openTable? {span : Span} (h : entries.Distinct)
    (hopen : entries.openTable? k span = some entries') : entries'.Distinct := by
  unfold Entries.openTable? at hopen
  split at hopen
  · next hnone =>
    obtain rfl := Option.some.inj hopen
    exact h.add hnone (distinct_nil.table .header)
  · next inner hlook =>
    obtain rfl := Option.some.inj hopen
    refine (h.filter _).add ?_ ((distinct_of_table (h.lookup? hlook)).table .header)
    rw [lookup?_eq_none_iff]
    simp
  · cases hopen

theorem Distinct.pushTable? {span : Span} (h : entries.Distinct)
    (hpush : entries.pushTable? k span = some entries') : entries'.Distinct := by
  have hfresh : Unique (.table .header []) := distinct_nil.table .header
  unfold Entries.pushTable? at hpush
  dsimp only at hpush
  split at hpush
  · next hnone =>
    obtain rfl := Option.some.inj hpush
    refine h.add hnone (.array fun item hitem => ?_)
    rw [List.mem_singleton.1 hitem]
    exact hfresh
  · next first items hlook =>
    cases h.lookup? hlook with
    | array hitems =>
      refine h.change (.array fun item hitem => ?_) hpush
      cases List.mem_append.1 hitem with
      | inl hitem => exact hitems item hitem
      | inr hitem =>
        rw [List.mem_singleton.1 hitem]
        exact hfresh
  · cases hpush

theorem Distinct.assign? {form : TableForm} {path : List Key} (h : entries.Distinct)
    (hnode : Unique node.2) (hassign : entries.assign? form path k node = some entries') :
    entries'.Distinct := by
  refine Distinct.under? (fun form entries entries' hinner hdefine => ?_) path h hassign
  split at hdefine
  · exact hinner.define? hnode hdefine
  · cases hdefine

end Entries

namespace Document
variable {tokens rest : Tokens} {node : Node} {s s' : State}

/-! ## Reading -/

theorem unique_ofScalar? {text : List Char} {v : Value} (h : Value.ofScalar? text = some v) : Unique v := by
  unfold Value.ofScalar? at h
  split at h
  · exact Option.some.inj h ▸ .bool true
  split at h
  · exact Option.some.inj h ▸ .bool false
  split at h
  · exact Option.some.inj h ▸ .datetime
  split at h
  · exact Option.some.inj h ▸ .integer _
  · obtain ⟨x, -, rfl⟩ := Option.map_eq_some_iff.1 h
    exact .float x

mutual

theorem unique_value? (steps : Nat) {tokens rest : Tokens} {node : Node}
    (h : value? steps tokens = some (node, rest)) : Unique node.2 := by
  match steps with
  | 0 => cases h
  | steps + 1 =>
    unfold value? at h
    dsimp only at h
    split at h
    · obtain ⟨rfl, -⟩ := Prod.mk.inj (Option.some.inj h)
      exact .string _
    · obtain ⟨⟨items, last, rest'⟩, hitems, hnode⟩ := Option.bind_eq_some_iff.1 h
      obtain ⟨rfl, -⟩ := Prod.mk.inj (Option.some.inj hnode)
      exact .array (unique_items? steps hitems)
    · obtain ⟨⟨entries, last, rest'⟩, hpairs, hnode⟩ := Option.bind_eq_some_iff.1 h
      obtain ⟨rfl, -⟩ := Prod.mk.inj (Option.some.inj hnode)
      exact (distinct_pairs? steps Entries.distinct_nil hpairs).table .inline
    · obtain ⟨v, hv, hnode⟩ := Option.bind_eq_some_iff.1 h
      obtain ⟨rfl, -⟩ := Prod.mk.inj (Option.some.inj hnode)
      exact unique_ofScalar? hv
    · cases h

theorem unique_items? (steps : Nat) {tokens rest : Tokens} {items : List Node} {last : Span}
    (h : items? steps tokens = some (items, last, rest)) : ∀ item ∈ items, Unique item.2 := by
  match steps with
  | 0 => cases h
  | steps + 1 =>
    unfold items? at h
    dsimp only at h
    split at h
    · obtain ⟨rfl, -⟩ := Prod.mk.inj (Option.some.inj h)
      exact fun item hitem => absurd hitem List.not_mem_nil
    · obtain ⟨⟨item, rest'⟩, hitem, hmore⟩ := Option.bind_eq_some_iff.1 h
      have hfirst : Unique item.2 := unique_value? steps hitem
      dsimp only at hmore
      split at hmore
      · obtain ⟨rfl, -⟩ := Prod.mk.inj (Option.some.inj hmore)
        exact List.forall_mem_singleton.2 hfirst
      · obtain ⟨⟨items', last', rest''⟩, hitems, hall⟩ := Option.bind_eq_some_iff.1 hmore
        obtain ⟨rfl, -⟩ := Prod.mk.inj (Option.some.inj hall)
        exact List.forall_mem_cons.2 ⟨hfirst, unique_items? steps hitems⟩
      · cases hmore

theorem distinct_pairs? (steps : Nat) {tokens rest : Tokens} {entries entries' : Entries} {last : Span}
    (hentries : entries.Distinct) (h : pairs? steps entries tokens = some (entries', last, rest)) :
    entries'.Distinct := by
  match steps with
  | 0 => cases h
  | steps + 1 =>
    unfold pairs? at h
    dsimp only at h
    split at h
    · obtain ⟨rfl, -⟩ := Prod.mk.inj (Option.some.inj h)
      exact hentries
    · obtain ⟨⟨path, k, rest'⟩, hkey, hpair⟩ := Option.bind_eq_some_iff.1 h
      dsimp only at hpair
      split at hpair
      · obtain ⟨⟨node, rest''⟩, hnode, hmore⟩ := Option.bind_eq_some_iff.1 hpair
        obtain ⟨grown, hassign, hmore⟩ := Option.bind_eq_some_iff.1 hmore
        have hgrown := hentries.assign? (unique_value? steps hnode) hassign
        dsimp only at hmore
        split at hmore
        · obtain ⟨rfl, -⟩ := Prod.mk.inj (Option.some.inj hmore)
          exact hgrown
        · exact distinct_pairs? steps hgrown hmore
        · cases hmore
      · cases hpair

end

/-! ## Lines -/

section
variable {path : List Key} {k : Key} {span : Span}

theorem distinct_assign? (hs : s.root.Distinct) (hnode : Unique node.2)
    (h : s.assign? path k node = some s') : s'.root.Distinct := by
  obtain ⟨root, hroot, hs'⟩ := Option.bind_eq_some_iff.1 h
  obtain rfl := Option.some.inj hs'
  exact hs.under? (fun form entries entries' hinner => hinner.assign? hnode) s.path hroot

theorem distinct_openTable? (hs : s.root.Distinct) (h : s.openTable? path k span = some s') :
    s'.root.Distinct := by
  obtain ⟨root, hroot, hs'⟩ := Option.bind_eq_some_iff.1 h
  obtain rfl := Option.some.inj hs'
  exact hs.under? (fun form entries entries' hinner => hinner.openTable?) path hroot

theorem distinct_pushTable? (hs : s.root.Distinct) (h : s.pushTable? path k span = some s') :
    s'.root.Distinct := by
  obtain ⟨root, hroot, hs'⟩ := Option.bind_eq_some_iff.1 h
  obtain rfl := Option.some.inj hs'
  exact hs.under? (fun form entries entries' hinner => hinner.pushTable?) path hroot

end

theorem distinct_header? (hs : s.root.Distinct) (h : header? s tokens = some (s', rest)) :
    s'.root.Distinct := by
  unfold header? at h
  split at h
  · obtain ⟨-, -, h⟩ := Option.bind_eq_some_iff.1 h
    obtain ⟨⟨path, k, rest'⟩, -, h⟩ := Option.bind_eq_some_iff.1 h
    dsimp only at h
    split at h
    · obtain ⟨-, -, h⟩ := Option.bind_eq_some_iff.1 h
      obtain ⟨s₁, hpush, h⟩ := Option.bind_eq_some_iff.1 h
      obtain ⟨rfl, -⟩ := Prod.mk.inj (Option.some.inj h)
      exact distinct_pushTable? hs hpush
    · cases h
  · obtain ⟨⟨path, k, rest'⟩, -, h⟩ := Option.bind_eq_some_iff.1 h
    dsimp only at h
    split at h
    · obtain ⟨s₁, hopen, h⟩ := Option.bind_eq_some_iff.1 h
      obtain ⟨rfl, -⟩ := Prod.mk.inj (Option.some.inj h)
      exact distinct_openTable? hs hopen
    · cases h
  · obtain ⟨⟨path, k, rest'⟩, -, h⟩ := Option.bind_eq_some_iff.1 h
    dsimp only at h
    split at h
    · obtain ⟨⟨node, rest''⟩, hnode, h⟩ := Option.bind_eq_some_iff.1 h
      obtain ⟨s₁, hassign, h⟩ := Option.bind_eq_some_iff.1 h
      obtain ⟨rfl, -⟩ := Prod.mk.inj (Option.some.inj h)
      exact distinct_assign? hs (unique_value? _ hnode) hassign
    · cases h

theorem distinct_line? (hs : s.root.Distinct) (h : line? s tokens = some (s', rest)) :
    s'.root.Distinct := by
  obtain ⟨⟨s₁, rest'⟩, hheader, h⟩ := Option.bind_eq_some_iff.1 h
  have hs₁ : s₁.root.Distinct := distinct_header? hs hheader
  dsimp only at h
  split at h
  · obtain ⟨rfl, -⟩ := Prod.mk.inj (Option.some.inj h)
    exact hs₁
  · obtain ⟨rfl, -⟩ := Prod.mk.inj (Option.some.inj h)
    exact hs₁
  · cases h

theorem distinct_lines? (steps : Nat) {tokens : Tokens} {s s' : State} (hs : s.root.Distinct)
    (h : lines? steps s tokens = some s') : s'.root.Distinct := by
  induction steps generalizing s tokens with
  | zero =>
    unfold lines? at h
    cases hskip : skipLines tokens with
    | nil =>
      rw [hskip] at h
      exact Option.some.inj h ▸ hs
    | cons token rest =>
      rw [hskip] at h
      cases h
  | succ steps ih =>
    unfold lines? at h
    cases hskip : skipLines tokens with
    | nil =>
      rw [hskip] at h
      exact Option.some.inj h ▸ hs
    | cons token rest =>
      rw [hskip] at h
      obtain ⟨⟨s₁, rest⟩, hline, h⟩ := Option.bind_eq_some_iff.1 h
      exact ih (distinct_line? hs hline) h

theorem parse?_distinct {text : List Char} {entries : Entries} (h : parse? text = some entries) :
    entries.Distinct := by
  obtain ⟨tokens, -, h⟩ := Option.bind_eq_some_iff.1 h
  obtain ⟨s, hlines, hroot⟩ := Option.bind_eq_some_iff.1 h
  obtain rfl := Option.some.inj hroot
  exact distinct_lines? tokens.length Entries.distinct_nil hlines

end Document
end SmaliBuild.Toml
