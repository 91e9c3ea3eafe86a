import SmaliBuild.Process.Tools
import SmaliBuild.Proofs.Config.Schema
import SmaliBuild.Proofs.Toml.Keys
/-!
# The commands that are run

In a document whose tools stand in a table, each tool has the command of the value under its key, word
for word, and no other value has a part in it (`Config.Assigns`).  The order of the keys and the choice
between a string and a list of one string are of no account.  A tool is then run by starting the words
of its command with those of the request behind them (`Config.RunsBy`).
-/
namespace SmaliBuild

theorem Tool.key_injective {t u : Tool} (h : t.key = u.key) : t = u := by
  have hkey := Tool.ofKey?_key t
  rw [h, Tool.ofKey?_key] at hkey
  exact (Option.some.inj hkey).symm

namespace Config
open Toml
variable {c c₀ c' : Config} {cmd cmd' : Command} {t : Tool} {v : Value} {entries tools tools' : Entries}
variable {e : Key × Node}

/-! ## One value -/

/-- The command that a tool gets from what stands under its key. -/
inductive Assigns (t : Tool) : Option Value → Command → Prop
  | absent : Assigns t none (.ofProgram t.key)
  | program (s : String) : Assigns t (some (.string s)) ⟨s, []⟩
  | words {ofTables : Bool} {span : Span} {program : String} {items : List Node}
      {arguments : List String} : items.map (·.2) = arguments.map Value.string →
      Assigns t (some (.array ofTables ((span, .string program) :: items))) ⟨program, arguments⟩

theorem ofValue_eq_ok (h : ofValue v = .ok cmd) :
    words? v = some cmd.words ∧ IsVisible cmd.program := by
  unfold ofValue at h
  split at h
  · cases h
  · next ws hws =>
    split at h
    · cases h
    · next cmd' hcmd =>
      obtain rfl := Except.ok.inj h
      obtain ⟨rfl, hvisible⟩ := Command.ofWords?_eq_some_iff.1 hcmd
      exact ⟨hws, isAllBlank_eq_false_iff.1 hvisible⟩

theorem assigns_of_words (h : words? v = some cmd.words) : Assigns t (some v) cmd := by
  obtain ⟨program, arguments⟩ := cmd
  rcases words?_eq_cons_iff.1 h with ⟨rfl, rfl⟩ | ⟨ofTables, span, items, rfl, hitems⟩
  · exact .program program
  · exact .words hitems

theorem Assigns.words_eq {value : Option Value} (h : Assigns t value cmd) :
    value.map words? = none ∧ cmd = .ofProgram t.key ∨ value.map words? = some (some cmd.words) := by
  cases h with
  | absent => exact Or.inl ⟨rfl, rfl⟩
  | program s => exact Or.inr rfl
  | words hitems =>
    exact Or.inr (congrArg some (words?_eq_cons_iff.2 (Or.inr ⟨_, _, _, rfl, hitems⟩)))

theorem Assigns.unique {value value' : Option Value} (h : Assigns t value cmd)
    (h' : Assigns t value' cmd') (hwords : value.map words? = value'.map words?) : cmd = cmd' := by
  cases h.words_eq with
  | inl hnone =>
    cases h'.words_eq with
    | inl hnone' => rw [hnone.2, hnone'.2]
    | inr hsome' => cases (hnone.1.symm.trans hwords).trans hsome'
  | inr hsome =>
    cases h'.words_eq with
    | inl hnone' => cases (hsome.symm.trans hwords).trans hnone'.1
    | inr hsome' =>
      have hsame := (hsome.symm.trans hwords).trans hsome'
      obtain ⟨program, arguments⟩ := cmd
      obtain ⟨program', arguments'⟩ := cmd'
      obtain ⟨rfl, rfl⟩ := List.cons.inj (Option.some.inj (Option.some.inj hsame))
      rfl

/-! ## A table of tools -/

/-- What stands under the key of a tool. -/
def under (tools : Entries) (t : Tool) : Option Value := (tools.lookup? t.key).map (·.2)

theorem setEntry_eq_ok (h : setEntry c e = .ok c') :
    ∃ t cmd, e.1.text = t.key ∧ ofValue e.2.2 = .ok cmd ∧ c' = c.withCommand t cmd := by
  unfold setEntry at h
  split at h
  · cases h
  · next t ht =>
    split at h
    · cases h
    · next cmd hcmd => exact ⟨t, cmd, Tool.ofKey?_eq_some_iff.1 ht, hcmd, (Except.ok.inj h).symm⟩

/-- Entries with different keys do not get into each other's way. -/
theorem command_of_foldlM (hkeys : (entries.map (·.1.text)).Nodup)
    (h : entries.foldlM setEntry c₀ = .ok c) (t : Tool) :
    (∀ e ∈ entries, e.1.text = t.key → ofValue e.2.2 = .ok (c.command t)) ∧
      (t.key ∉ entries.map (·.1.text) → c.command t = c₀.command t) := by
  induction entries generalizing c₀ with
  | nil =>
    obtain rfl := Except.ok.inj h
    exact ⟨fun _ he => absurd he List.not_mem_nil, fun _ => rfl⟩
  | cons e entries ih =>
    rw [List.map_cons, List.nodup_cons] at hkeys
    rw [List.foldlM_cons] at h
    cases hset : setEntry c₀ e with
    | error mistake =>
      rw [hset] at h
      cases h
    | ok c₁ =>
      rw [hset] at h
      obtain ⟨u, cmd, hkey, hcmd, rfl⟩ := setEntry_eq_ok hset
      obtain ⟨hlater, hnone⟩ := ih hkeys.2 h
      constructor
      · intro e' he' hkey'
        cases List.mem_cons.1 he' with
        | inl heq =>
          subst heq
          obtain rfl := Tool.key_injective (hkey.symm.trans hkey')
          rw [hnone (hkey ▸ hkeys.1), command_withCommand_self, hcmd]
        | inr hmem => exact hlater e' hmem hkey'
      · intro habsent
        rw [List.map_cons, List.mem_cons, not_or] at habsent
        rw [hnone habsent.2, command_withCommand_of_ne]
        rintro rfl
        exact habsent.1 hkey.symm

theorem byKey_perm (entries : Entries) : (byKey entries).Perm entries := List.mergeSort_perm entries _

theorem command_standard (t : Tool) : standard.command t = .ofProgram t.key := by
  cases t <;> rfl

theorem assigns_of_ofTable (hkeys : (tools.map (·.1.text)).Nodup) (h : ofTable tools = .ok c)
    (t : Tool) : Assigns t (under tools t) (c.command t) := by
  obtain ⟨hset, hnone⟩ := command_of_foldlM (((byKey_perm tools).map _).nodup_iff.2 hkeys) h t
  unfold under
  cases hlook : tools.lookup? t.key with
  | none =>
    have habsent : t.key ∉ (byKey tools).map (·.1.text) := by
      rw [((byKey_perm tools).map _).mem_iff]
      exact Entries.lookup?_eq_none_iff.1 hlook
    rw [hnone habsent, command_standard]
    exact .absent
  | some node =>
    obtain ⟨e, he, hkey, rfl⟩ := Entries.exists_of_lookup? hlook
    have hcmd := hset e ((byKey_perm tools).mem_iff.2 he) hkey
    exact assigns_of_words (ofValue_eq_ok hcmd).1

/-- What stands under the keys is a matter of the pairs of keys and values, in whatever order. -/
theorem under_map_words_iff (hkeys : (tools.map (·.1.text)).Nodup) {words : Option (List String)} :
    (under tools t).map words? = some words ↔
      (t.key, words) ∈ tools.map fun e => (e.1.text, words? e.2.2) := by
  rw [under, Option.map_map, Option.map_eq_some_iff, List.mem_map]
  constructor
  · rintro ⟨node, hlook, rfl⟩
    obtain ⟨e, he, hkey, rfl⟩ := Entries.exists_of_lookup? hlook
    exact ⟨e, he, by rw [hkey]; rfl⟩
  · rintro ⟨e, he, heq⟩
    obtain ⟨hkey, rfl⟩ := Prod.mk.inj heq
    exact ⟨e.2, hkey ▸ Entries.lookup?_of_mem hkeys he, rfl⟩

theorem under_perm (hkeys : (tools.map (·.1.text)).Nodup) (hkeys' : (tools'.map (·.1.text)).Nodup)
    (hperm : (tools.map fun e => (e.1.text, words? e.2.2)).Perm
      (tools'.map fun e => (e.1.text, words? e.2.2))) (t : Tool) :
    (under tools t).map words? = (under tools' t).map words? := by
  apply Option.ext
  intro words
  rw [under_map_words_iff hkeys, under_map_words_iff hkeys', hperm.mem_iff]

theorem eq_of_commands (h : ∀ t, c.command t = c'.command t) : c = c' := by
  obtain ⟨compiler, packager, disassembler⟩ := c
  obtain ⟨compiler', packager', disassembler'⟩ := c'
  obtain rfl : compiler = compiler' := h .compiler
  obtain rfl : packager = packager' := h .packager
  obtain rfl : disassembler = disassembler' := h .disassembler
  rfl

theorem ofTable_of_perm (hkeys : (tools.map (·.1.text)).Nodup)
    (hkeys' : (tools'.map (·.1.text)).Nodup)
    (hperm : (tools'.map fun e => (e.1.text, words? e.2.2)).Perm
      (tools.map fun e => (e.1.text, words? e.2.2)))
    (h : ofTable tools = .ok c) : ofTable tools' = .ok c := by
  have hentries := exists_ofTable_iff.1 ⟨c, h⟩
  obtain ⟨c', hc'⟩ : ∃ c', ofTable tools' = .ok c' := by
    refine exists_ofTable_iff.2 fun e' he' => ?_
    obtain ⟨e, he, heq⟩ := List.mem_map.1 (hperm.subset (List.mem_map_of_mem he'))
    obtain ⟨hkey, hwords⟩ := Prod.mk.inj heq
    obtain ⟨htool, hcommand⟩ := hentries e he
    rw [← exists_ofValue_iff, exists_ofValue_iff_words] at hcommand ⊢
    rw [← hkey, ← hwords]
    exact ⟨htool, hcommand⟩
  have hsame (t : Tool) : c'.command t = c.command t :=
    (assigns_of_ofTable hkeys' hc' t).unique (assigns_of_ofTable hkeys h t)
      (under_perm hkeys' hkeys hperm t)
  rw [hc', eq_of_commands hsame]

/-! ## Documents -/

/-- The text is a document that has the tools in this table, or is without tools. -/
def Tabulates (text : List Char) (tools : Entries) : Prop :=
  ∃ entries, Document.parse? text = some entries ∧
    (entries.lookup? tableKey = none ∧ tools = [] ∨
      ∃ span form, entries.lookup? tableKey = some (span, .table form tools))

theorem parse_eq_ok {name : String} {text : List Char} (h : Config.parse name text = .ok c) :
    ∃ entries, Document.parse? text = some entries ∧ ofDocument entries = .ok c := by
  unfold Config.parse at h
  split at h
  · cases h
  · next entries hentries =>
    split at h
    · cases h
    · next c' hc => exact ⟨entries, hentries, Except.ok.inj h ▸ hc⟩

theorem ofDocument_single {key : Key} {node : Node} (hkey : key.text = tableKey) :
    ofDocument [(key, node)] = ofTools node := by
  rw [ofDocument, byKey, List.mergeSort_singleton, List.foldlM_cons, if_pos hkey]
  cases ofTools node <;> rfl

theorem ofDocument_cases (hentries : entries.Distinct) (h : ofDocument entries = .ok c) :
    entries = [] ∧ c = standard ∨
      ∃ key node, key.text = tableKey ∧ entries = [(key, node)] ∧ ofTools node = .ok c := by
  have hkeys : ∀ e ∈ entries, e.1.text = tableKey := fun e he => (exists_ofDocument_iff.1 ⟨c, h⟩ e he).1
  match entries with
  | [] =>
    rw [ofDocument, byKey, List.mergeSort_nil] at h
    exact Or.inl ⟨rfl, (Except.ok.inj h).symm⟩
  | [(key, node)] =>
    have hkey : key.text = tableKey := hkeys _ List.mem_cons_self
    exact Or.inr ⟨key, node, hkey, rfl, (ofDocument_single hkey).symm.trans h⟩
  | e :: e' :: rest =>
    have hfirst := hkeys e List.mem_cons_self
    have hsecond := hkeys e' (List.mem_cons_of_mem e List.mem_cons_self)
    have hne : e.1.text ∉ (e' :: rest).map (·.1.text) := (List.nodup_cons.1 hentries.keys).1
    rw [hfirst, List.map_cons, hsecond] at hne
    exact absurd List.mem_cons_self hne

/-- The text is a document of nothing but the tools in this table, or it is empty. -/
def Holds (text : List Char) (tools : Entries) : Prop :=
  ∃ entries, Document.parse? text = some entries ∧
    (entries = [] ∧ tools = [] ∨
      ∃ key span form, key.text = tableKey ∧ entries = [(key, span, .table form tools)])

theorem Tabulates.holds {name : String} {text : List Char} (htools : Tabulates text tools)
    (h : Config.parse name text = .ok c) : Holds text tools := by
  obtain ⟨entries, hentries, hdocument⟩ := parse_eq_ok h
  obtain ⟨entries', hentries', hlook⟩ := htools
  obtain rfl := Option.some.inj (hentries.symm.trans hentries')
  have hdistinct := Document.parse?_distinct hentries
  refine ⟨entries, hentries, ?_⟩
  cases ofDocument_cases hdistinct hdocument with
  | inl hempty =>
    obtain ⟨rfl, -⟩ := hempty
    cases hlook with
    | inl hnone => exact Or.inl ⟨rfl, hnone.2⟩
    | inr htable =>
      obtain ⟨span, form, htable⟩ := htable
      cases htable
  | inr hsingle =>
    obtain ⟨key, node, hkey, rfl, -⟩ := hsingle
    have hfound : Entries.lookup? [(key, node)] tableKey = some node :=
      hkey ▸ Entries.lookup?_of_mem hdistinct.keys List.mem_cons_self
    cases hlook with
    | inl hnone => cases hfound.symm.trans hnone.1
    | inr htable =>
      obtain ⟨span, form, htable⟩ := htable
      obtain rfl := Option.some.inj (hfound.symm.trans htable)
      exact Or.inr ⟨key, span, form, hkey, rfl⟩

theorem Holds.nodup {text : List Char} (h : Holds text tools) : (tools.map (·.1.text)).Nodup := by
  obtain ⟨entries, hentries, hholds⟩ := h
  rcases hholds with ⟨-, rfl⟩ | ⟨key, span, form, -, rfl⟩
  · exact List.nodup_nil
  · have hvalue := (Document.parse?_distinct hentries).values _ List.mem_cons_self
    exact (Entries.distinct_of_table hvalue).keys

/-- The table of the tools is what the configuration is made from. -/
theorem Holds.parse_iff {text : List Char} (h : Holds text tools) (name : String) :
    Config.parse name text = .ok c ↔ ofTable tools = .ok c := by
  obtain ⟨entries, hentries, hholds⟩ := h
  have hdocument : ofDocument entries = ofTable tools := by
    rcases hholds with ⟨rfl, rfl⟩ | ⟨key, span, form, hkey, rfl⟩
    · rw [ofDocument, ofTable, byKey, List.mergeSort_nil]
      rfl
    · exact ofDocument_single hkey
  rw [Config.parse, hentries]
  dsimp only
  rw [hdocument]
  cases ofTable tools <;> simp

/-! ## Programs -/

/-- Each tool has a program that can be seen. -/
def Visible (c : Config) : Prop := ∀ t, IsVisible (c.command t).program

theorem visible_standard : standard.Visible := by
  intro t
  cases t <;> exact ⟨_, List.mem_cons_self, by decide⟩

theorem Visible.withCommand (hc : c.Visible) (hcmd : IsVisible cmd.program) :
    (c.withCommand t cmd).Visible := by
  intro u
  by_cases hu : u = t
  · rw [hu, command_withCommand_self]
    exact hcmd
  · rw [command_withCommand_of_ne c cmd hu]
    exact hc u

theorem of_foldlM {α β ε : Type} {f : β → α → Except ε β} {P : β → Prop}
    (hf : ∀ b a b', P b → f b a = .ok b' → P b') {as : List α} {b b' : β} (hb : P b)
    (h : as.foldlM f b = .ok b') : P b' := by
  induction as generalizing b with
  | nil => exact Except.ok.inj h ▸ hb
  | cons a as ih =>
    rw [List.foldlM_cons] at h
    cases ha : f b a with
    | error e =>
      rw [ha] at h
      cases h
    | ok b₁ =>
      rw [ha] at h
      exact ih (hf b a b₁ hb ha) h

theorem visible_ofTools {node : Node} (h : ofTools node = .ok c) : c.Visible := by
  obtain ⟨span, v⟩ := node
  cases v with
  | table form entries =>
    refine of_foldlM (fun c e c' hc hset => ?_) visible_standard h
    obtain ⟨t, cmd, -, hcmd, rfl⟩ := setEntry_eq_ok hset
    exact hc.withCommand (ofValue_eq_ok hcmd).2
  | array ofTables items =>
    refine of_foldlM (fun c x c' hc hset => ?_) visible_standard h
    obtain ⟨t, place, v⟩ := x
    dsimp only at hset
    split at hset
    · cases hset
    · next cmd hcmd =>
      obtain rfl := Except.ok.inj hset
      exact hc.withCommand (ofValue_eq_ok hcmd).2
  | _ => cases h

theorem visible_of_parse {name : String} {text : List Char} (h : Config.parse name text = .ok c) :
    c.Visible := by
  obtain ⟨entries, hentries, hdocument⟩ := parse_eq_ok h
  cases ofDocument_cases (Document.parse?_distinct hentries) hdocument with
  | inl hempty => exact hempty.2 ▸ visible_standard
  | inr hsingle =>
    obtain ⟨key, node, -, -, hnode⟩ := hsingle
    exact visible_ofTools hnode

/-! ## Starting a tool -/

/-- A tool is run by starting the program of these words on the files, and by nothing else. -/
structure RunsBy {α : Type} (run : Launcher → ToolRun α) (words : List OsString) (fs : FileSystem) :
    Prop where
  files : ∀ launch, (run launch).files = (launch words fs).files
  alone : ∀ launch launch' : Launcher, launch words fs = launch' words fs → run launch = run launch'

section
variable {α : Type} {launch : Launcher} {tool : Tool} {arguments : List OsString}
variable {finish : Printed → α × Journal} {fs : FileSystem}

theorem files_start : (c.start launch tool arguments finish fs).files =
    (launch ((c.command tool).with_ arguments) fs).files := by
  unfold start
  dsimp only
  split <;> rfl

end

theorem runsBy_start {α : Type} (c : Config) (tool : Tool) (arguments : List OsString)
    (finish : Printed → α × Journal) (fs : FileSystem) :
    RunsBy (fun launch => c.start launch tool arguments finish fs)
      ((c.command tool).with_ arguments) fs where
  files _ := files_start
  alone launch launch' heq := by
    unfold start
    dsimp only
    rw [heq]

/-! ## Accepted configurations -/

/-- Commands are taken as they are written.  In an accepted document without tools, or with a table of
them, each tool has the command of the value under its key.  An accepted document with the same words
under a key has the same command there, whatever else it holds, and one of nothing but the tools that
has the same words under all keys, in any order, is accepted and is the same configuration.  In every
accepted document each tool has a program that can be seen, and it is run by starting that program with
the configured arguments and then those of the request. -/
theorem parse_commands {name : String} {text : List Char} (hok : Config.parse name text = .ok c) :
    (∀ tools, Tabulates text tools → (tools.map (·.1.text)).Nodup ∧
      (∀ t, Assigns t (under tools t) (c.command t)) ∧
      (∀ name' text' c' tools', Config.parse name' text' = .ok c' → Tabulates text' tools' →
        ∀ t, (under tools' t).map words? = (under tools t).map words? → c'.command t = c.command t) ∧
      ∀ name' text' tools', Holds text' tools' →
        (tools'.map fun e => (e.1.text, words? e.2.2)).Perm
          (tools.map fun e => (e.1.text, words? e.2.2)) → Config.parse name' text' = .ok c) ∧
      (∀ t, IsVisible (c.command t).program) ∧
      ∀ fs, (∀ r, RunsBy (fun launch => (c.toolchain launch).compile r fs)
          ((c.compiler.program :: c.compiler.arguments).map .ofString ++ r.arguments) fs) ∧
        (∀ r, RunsBy (fun launch => (c.toolchain launch).package r fs)
          ((c.packager.program :: c.packager.arguments).map .ofString ++ r.arguments) fs) ∧
        ∀ r, RunsBy (fun launch => (c.toolchain launch).disassemble r fs)
          ((c.disassembler.program :: c.disassembler.arguments).map .ofString ++ r.arguments) fs := by
  refine ⟨fun tools htools => ?_, visible_of_parse hok, fun fs => ⟨?_, ?_, ?_⟩⟩
  · have hholds := htools.holds hok
    have htable := (hholds.parse_iff name).1 hok
    refine ⟨hholds.nodup, assigns_of_ofTable hholds.nodup htable, ?_, ?_⟩
    · intro name' text' c' tools' hok' htools' t hwords
      have hholds' := htools'.holds hok'
      have htable' := (hholds'.parse_iff name').1 hok'
      exact (assigns_of_ofTable hholds'.nodup htable' t).unique
        (assigns_of_ofTable hholds.nodup htable t) hwords
    · intro name' text' tools' hholds' hperm
      exact (hholds'.parse_iff name').2 (ofTable_of_perm hholds.nodup hholds'.nodup hperm htable)
  · intro r
    exact runsBy_start c .compiler r.arguments
      (fun p => (CompilerLog.ofOutput (p.on .out) (p.on .err), [])) fs
  · intro r
    exact runsBy_start c .packager r.arguments (fun p => ((), p.events)) fs
  · intro r
    exact runsBy_start c .disassembler r.arguments (fun p => ((), p.events)) fs

/-! ## A configuration of two tools -/

/-- The packager as a list of words and the compiler as a string. -/
def commandsText : List Char := "[toolchain]\ndx = [\"d8\", \"--lib\"]\njavac = \"ecj\"\n".toList

def commandsTable : Entries :=
  [(⟨"dx", ⟨12, 2⟩⟩, ⟨17, 15⟩, .array false [(⟨18, 4⟩, .string "d8"), (⟨24, 7⟩, .string "--lib")]),
    (⟨"javac", ⟨33, 5⟩⟩, ⟨41, 5⟩, .string "ecj")]

def commandsTokens : Tokens :=
  [(.openBracket, ⟨0, 1⟩), (.bare "toolchain".toList, ⟨1, 9⟩), (.closeBracket, ⟨10, 1⟩),
    (.newline, ⟨11, 1⟩), (.bare "dx".toList, ⟨12, 2⟩), (.equals, ⟨15, 1⟩), (.openBracket, ⟨17, 1⟩),
    (.string "d8".toList true, ⟨18, 4⟩), (.comma, ⟨22, 1⟩), (.string "--lib".toList true, ⟨24, 7⟩),
    (.closeBracket, ⟨31, 1⟩), (.newline, ⟨32, 1⟩), (.bare "javac".toList, ⟨33, 5⟩),
    (.equals, ⟨39, 1⟩), (.string "ecj".toList true, ⟨41, 5⟩), (.newline, ⟨46, 1⟩)]

theorem parse?_commandsText : Document.parse? commandsText =
    some [(⟨"toolchain", ⟨1, 9⟩⟩, ⟨0, 11⟩, .table .header commandsTable)] := by
  have hscan : Token.scan? commandsText = some commandsTokens := by decide +kernel
  rw [Document.parse?, hscan]
  rfl

def shownConfig : Config where
  compiler := ⟨"ecj", []⟩
  packager := ⟨"d8", ["--lib"]⟩
  disassembler := .ofProgram "baksmali"

theorem parse_commandsText : Config.parse Config.fileName commandsText = .ok shownConfig := by
  have hsorted : byKey commandsTable = commandsTable := by
    apply List.mergeSort_of_pairwise
    decide
  have htable : ofTable commandsTable = .ok shownConfig := by
    rw [ofTable, hsorted]
    rfl
  rw [Config.parse, parse?_commandsText]
  dsimp only
  rw [ofDocument_single rfl, ofTools, htable]

/-- Each tool of that document has the words under its key, and the one without a key its usual name. -/
theorem parse_commands_shown :
    Config.parse Config.fileName commandsText = .ok shownConfig ∧
      Assigns .packager (under commandsTable .packager) ⟨"d8", ["--lib"]⟩ ∧
      Assigns .disassembler none (.ofProgram "baksmali") ∧
      ∀ fs r, RunsBy (fun launch => (shownConfig.toolchain launch).package r fs)
        (["d8", "--lib"].map .ofString ++ r.arguments) fs := by
  have htabulates : Tabulates commandsText commandsTable :=
    ⟨_, parse?_commandsText, Or.inr ⟨⟨0, 11⟩, .header, rfl⟩⟩
  obtain ⟨htable, -, hruns⟩ := parse_commands parse_commandsText
  obtain ⟨-, hassigns, -⟩ := htable commandsTable htabulates
  exact ⟨parse_commandsText, hassigns .packager, hassigns .disassembler, fun fs => (hruns fs).2.1⟩

end Config
end SmaliBuild
