import SmaliBuild.CommandLine.Options
/-!
# Shell completions

A script for each shell that completes the names of the commands.
-/
namespace SmaliBuild

/-- The names that a shell is to complete. -/
def completedNames : List String := Scope.commands.map Scope.name ++ [helpCommand]

/-- The script that makes a shell complete the names. -/
def CompletionShell.script : CompletionShell → String
  | bash => s!"complete -W \"{spaced}\" {programName}\n"
  | elvish =>
    s!"set edit:completion:arg-completer[{programName}] = \x7b|@words| put {spaced} \x7d\n"
  | fish => s!"complete -c {programName} -f -a \"{spaced}\"\n"
  | powershell =>
    s!"Register-ArgumentCompleter -Native -CommandName {programName} -ScriptBlock \x7b " ++
      "param($word) " ++ ", ".intercalate (completedNames.map fun n => s!"'{n}'") ++
      " | Where-Object \x7b $_ -like \"$word*\" \x7d \x7d\n"
  | zsh => s!"#compdef {programName}\n_arguments '1: :({spaced})'\n"
where
  spaced : String := " ".intercalate completedNames

end SmaliBuild
