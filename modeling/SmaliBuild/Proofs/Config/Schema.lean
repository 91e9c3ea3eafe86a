import Mathlib
import SmaliBuild.Config.File
/-!
# Which documents are configurations

`NamesCommand` says which values stand for the command of a tool, `IsToolTable` which tables do for
all of them.  A document is accepted exactly if it holds nothing but the tools, in such a table or,
by position, in a list of commands (`exists_parse_iff`).  The list is what the schema does not speak
of: an empty one is accepted (`parse_list`).
-/
namespace SmaliBuild

theorem Tool.ofKey?_eq_some_iff {k : String} {t : Tool} : Tool.ofKey? k = some t ↔ k = t.key := by
  constructor
  · intro h
    have hkey := List.find?_some h
    exact (beq_iff_eq.1 hkey).symm
  · rintro rfl
    exact Tool.ofKey?_key t

namespace Config
open Toml
variable {v : Value} {c : Config} {entries : Entries} {items : List Node}

/-! ## Commands -/

/-- A text in which there is something to see. -/
def IsVisible (s : String) : Prop := ∃ c ∈ s.toList, Text.isBlank c = false

/-- The value names a program by itself, or as the first of a list of strings. -/
inductive NamesCommand : Value → Prop
  | program {s : String} : IsVisible s → NamesCommand (.string s)
  | words {ofTables : Bool} {span : Span} {s : String} {rest : List Node} : IsVisible s →
      (∀ item ∈ rest, ∃ w, item.2 = .string w) →
      NamesCommand (.array ofTables ((span, .string s) :: rest))

theorem isAllBlank_eq_false_iff {s : String} :
    Text.isAllBlank s.toList = false ↔ IsVisible s := by
  rw [Text.isAllBlank, List.all_eq_false]
  simp [IsVisible]

theorem exists_ofWords?_iff {ws : List String} :
    (∃ c, Command.ofWords? ws = some c) ↔ ∃ s rest, ws = s :: rest ∧ IsVisible s := by
  constructor
  · rintro ⟨c, hc⟩
    obtain ⟨hws, hvisible⟩ := Command.ofWords?_eq_some_iff.1 hc
    exact ⟨c.program, c.arguments, hws, isAllBlank_eq_false_iff.1 hvisible⟩
  · rintro ⟨s, rest, rfl, hvisible⟩
    exact ⟨⟨s, rest⟩, Command.ofWords?_eq_some_iff.2 ⟨rfl, isAllBlank_eq_false_iff.2 hvisible⟩⟩

theorem string?_eq_some_iff {s : String} : string? v = some s ↔ v = .string s := by
  cases v <;> simp [string?]

theorem mapM_string?_eq_some_iff {ws : List String} :
    (items.mapM fun item => string? item.2) = some ws ↔
      items.map (·.2) = ws.map Value.string := by
  induction items generalizing ws with
  | nil => simp [eq_comm]
  | cons item items ih =>
    rw [List.mapM_cons, Option.bind_eq_bind, Option.bind_eq_some_iff]
    simp only [string?_eq_some_iff, Option.bind_eq_bind, Option.bind_eq_some_iff, ih, List.map_cons]
    constructor
    · rintro ⟨w, hw, ws, hws, hcons⟩
      obtain rfl := Option.some.inj hcons
      rw [hw, hws, List.map_cons]
    · intro h
      cases ws with
      | nil => cases h
      | cons w ws => exact ⟨w, (List.cons.inj h).1, ws, (List.cons.inj h).2, rfl⟩

theorem words?_eq_cons_iff {s : String} {rest : List String} : words? v = some (s :: rest) ↔
    v = .string s ∧ rest = [] ∨ ∃ ofTables span items,
      v = .array ofTables ((span, .string s) :: items) ∧
        items.map (·.2) = rest.map Value.string := by
  constructor
  · intro hws
    cases v with
    | string t =>
      obtain ⟨rfl, rfl⟩ := List.cons.inj (Option.some.inj hws)
      exact Or.inl ⟨rfl, rfl⟩
    | array ofTables items =>
      have hitems := mapM_string?_eq_some_iff.1 hws
      cases items with
      | nil => cases hitems
      | cons item items =>
        obtain ⟨span, v⟩ := item
        obtain ⟨hfirst, hrest⟩ := List.cons.inj hitems
        obtain rfl : v = .string s := hfirst
        exact Or.inr ⟨ofTables, span, items, rfl, hrest⟩
    | _ => cases hws
  · rintro (⟨rfl, rfl⟩ | ⟨ofTables, span, items, rfl, hitems⟩)
    · rfl
    · exact mapM_string?_eq_some_iff.2 (congrArg (Value.string s :: ·) hitems)

theorem exists_map_string (hitems : ∀ item ∈ items, ∃ w, item.2 = .string w) :
    ∃ ws : List String, items.map (·.2) = ws.map Value.string := by
  induction items with
  | nil => exact ⟨[], rfl⟩
  | cons item items ih =>
    obtain ⟨w, hw⟩ := hitems item List.mem_cons_self
    obtain ⟨ws, hws⟩ := ih fun item hitem => hitems item (List.mem_cons_of_mem _ hitem)
    exact ⟨w :: ws, by rw [List.map_cons, List.map_cons, hw, hws]⟩

theorem exists_ofValue_iff_words : (∃ c, ofValue v = .ok c) ↔
    ∃ s rest, words? v = some (s :: rest) ∧ IsVisible s := by
  have hwords : (∃ c, ofValue v = .ok c) ↔
      ∃ ws, words? v = some ws ∧ ∃ c, Command.ofWords? ws = some c := by
    unfold ofValue
    cases words? v with
    | none => simp
    | some ws => cases h : Command.ofWords? ws <;> simp [h]
  rw [hwords]
  simp only [exists_ofWords?_iff]
  constructor
  · rintro ⟨ws, hws, s, rest, rfl, hvisible⟩
    exact ⟨s, rest, hws, hvisible⟩
  · rintro ⟨s, rest, hws, hvisible⟩
    exact ⟨_, hws, s, rest, rfl, hvisible⟩

theorem exists_ofValue_iff : (∃ c, ofValue v = .ok c) ↔ NamesCommand v := by
  rw [exists_ofValue_iff_words]
  constructor
  · rintro ⟨s, rest, hws, hvisible⟩
    rcases words?_eq_cons_iff.1 hws with ⟨rfl, -⟩ | ⟨ofTables, span, items, rfl, hitems⟩
    · exact .program hvisible
    · refine .words hvisible fun item hitem => ?_
      have hmem : item.2 ∈ rest.map Value.string := hitems ▸ List.mem_map_of_mem hitem
      obtain ⟨w, -, hw⟩ := List.mem_map.1 hmem
      exact ⟨w, hw.symm⟩
  · intro hv
    cases hv with
    | @program s hvisible => exact ⟨s, [], rfl, hvisible⟩
    | @words ofTables span s rest hvisible hstrings =>
      obtain ⟨ws, hws⟩ := exists_map_string hstrings
      exact ⟨s, ws, words?_eq_cons_iff.2 (Or.inr ⟨ofTables, span, rest, rfl, hws⟩), hvisible⟩

/-! ## The tools -/

/-- A run of steps that are refused or not without regard to what was built goes through if no step is
refused. -/
theorem exists_foldlM_iff {α β ε : Type} {f : β → α → Except ε β} {P : α → Prop}
    (hf : ∀ b a, (∃ b', f b a = .ok b') ↔ P a) (as : List α) (b : β) :
    (∃ b', as.foldlM f b = .ok b') ↔ ∀ a ∈ as, P a := by
  induction as generalizing b with
  | nil => simp [pure, Except.pure]
  | cons a as ih =>
    rw [List.foldlM_cons, List.forall_mem_cons, ← hf b a]
    cases f b a with
    | error e => simp [bind, Except.bind]
    | ok b' => simpa [bind, Except.bind] using ih b'

/-- A table with no keys but those of the tools, which has a command under each. -/
inductive IsToolTable : Value → Prop
  | table {form : TableForm} {entries : Entries} :
      (∀ e ∈ entries, (∃ t : Tool, e.1.text = t.key) ∧ NamesCommand e.2.2) →
      IsToolTable (.table form entries)

/-- A list that has a command at each place that stands for a tool. -/
inductive IsToolList : Value → Prop
  | list {ofTables : Bool} {items : List Node} :
      (∀ item ∈ items.take Tool.all.length, NamesCommand item.2) →
      IsToolList (.array ofTables items)

theorem exists_setEntry_iff (c : Config) (e : Key × Node) :
    (∃ c', setEntry c e = .ok c') ↔ (∃ t : Tool, e.1.text = t.key) ∧ NamesCommand e.2.2 := by
  rw [← exists_ofValue_iff, setEntry]
  simp only [← Tool.ofKey?_eq_some_iff]
  cases Tool.ofKey? e.1.text with
  | none => simp
  | some t => cases ofValue e.2.2 <;> simp

theorem exists_ofTable_iff : (∃ c, ofTable entries = .ok c) ↔
    ∀ e ∈ entries, (∃ t : Tool, e.1.text = t.key) ∧ NamesCommand e.2.2 := by
  rw [ofTable, exists_foldlM_iff exists_setEntry_iff]
  simp only [byKey, List.mem_mergeSort]

/-- Each place of the list that stands for a tool is met once. -/
theorem forall_mem_zip_iff {α β : Type} {as : List α} {bs : List β} {P : β → Prop} :
    (∀ x ∈ as.zip bs, P x.2) ↔ ∀ b ∈ bs.take as.length, P b := by
  induction as generalizing bs with
  | nil => simp
  | cons a as ih =>
    cases bs with
    | nil => simp
    | cons b bs => simp [← ih]

theorem exists_ofList_iff (span : Span) : (∃ c, ofList span items = .ok c) ↔
    ∀ item ∈ items.take Tool.all.length, NamesCommand item.2 := by
  rw [ofList, exists_foldlM_iff (P := fun x => NamesCommand x.2.2)]
  · exact forall_mem_zip_iff (P := fun item : Node => NamesCommand item.2)
  · intro c x
    rw [← exists_ofValue_iff]
    cases h : ofValue x.2.2 <;> simp [h]

theorem exists_ofTools_iff {node : Node} :
    (∃ c, ofTools node = .ok c) ↔ IsToolTable node.2 ∨ IsToolList node.2 := by
  obtain ⟨span, v⟩ := node
  cases v with
  | table form entries =>
    constructor
    · intro h
      exact Or.inl (.table (exists_ofTable_iff.1 h))
    · intro h
      cases h with
      | inl h =>
        cases h with
        | table hentries => exact exists_ofTable_iff.2 hentries
      | inr h => cases h
  | array ofTables items =>
    constructor
    · intro h
      exact Or.inr (.list ((exists_ofList_iff span).1 h))
    · intro h
      cases h with
      | inl h => cases h
      | inr h =>
        cases h with
        | list hitems => exact (exists_ofList_iff span).2 hitems
  | _ =>
    constructor
    · rintro ⟨c, hc⟩
      cases hc
    · rintro (h | h) <;> cases h

/-! ## Documents -/

theorem exists_ofDocument_iff : (∃ c, ofDocument entries = .ok c) ↔
    ∀ e ∈ entries, e.1.text = tableKey ∧ (IsToolTable e.2.2 ∨ IsToolList e.2.2) := by
  rw [ofDocument, exists_foldlM_iff
    (P := fun e => e.1.text = tableKey ∧ (IsToolTable e.2.2 ∨ IsToolList e.2.2))]
  · simp only [byKey, List.mem_mergeSort]
  · intro c e
    split
    · next hkey => simp [hkey, exists_ofTools_iff]
    · next hkey => simp [hkey]

/-- A text is a configuration exactly if it is a document without other keys than that of the tools,
whose value is a table of commands or a list of commands by position. -/
theorem exists_parse_iff (name : String) (text : List Char) :
    (∃ c, Config.parse name text = .ok c) ↔ ∃ entries, Document.parse? text = some entries ∧
      ∀ e ∈ entries, e.1.text = tableKey ∧ (IsToolTable e.2.2 ∨ IsToolList e.2.2) := by
  simp only [← exists_ofDocument_iff]
  unfold Config.parse
  cases Document.parse? text with
  | none => simp
  | some entries => cases h : ofDocument entries <;> simp [h]

def listText : List Char := "toolchain = []\n".toList

def listEntries : Entries := [(⟨"toolchain", ⟨0, 9⟩⟩, ⟨12, 2⟩, .array false [])]

theorem parse?_listText : Document.parse? listText = some listEntries := by
  have hscan : Token.scan? listText = some [(.bare "toolchain".toList, ⟨0, 9⟩),
      (.equals, ⟨10, 1⟩), (.openBracket, ⟨12, 1⟩), (.closeBracket, ⟨13, 1⟩), (.newline, ⟨14, 1⟩)] := by
    decide +kernel
  rw [Document.parse?, hscan]
  rfl

/-- A list in the place of the table of tools is no mistake. -/
theorem parse_list : Config.parse Config.fileName listText = .ok .standard ∧
    ∃ entries, Document.parse? listText = some entries ∧
      ¬ ∀ e ∈ entries, e.1.text = tableKey ∧ IsToolTable e.2.2 := by
  have hdocument : ofDocument listEntries = .ok .standard := by
    rw [ofDocument, byKey, listEntries, List.mergeSort_singleton]
    rfl
  refine ⟨?_, listEntries, parse?_listText, fun hall => ?_⟩
  · simp only [Config.parse, parse?_listText, hdocument]
  · cases (hall _ List.mem_cons_self).2

end Config
end SmaliBuild
