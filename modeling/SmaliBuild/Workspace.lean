import SmaliBuild.Path.Basic
/-!
# Names and places of a conversion

A conversion puts its intermediate artifacts and its output next to its input, under fixed names.
-/
namespace SmaliBuild

/-- The list of sources handed to the compiler for a directory. -/
def manifestName : String := "FilesList.txt"

def bundleName : String := "classes.dex"

def outputName : String := "converted"

/-- What the name of a source directory ends in once it is compiled. -/
def compiledSuffix : String := "_compiled"

def classExtension : String := "class"

/-- The paths that the stages of one conversion share. -/
structure Workspace where
  directory : Path
  manifest : Path
  bundle : Path
  output : Path
deriving DecidableEq, Repr

def Workspace.inDirectory (directory : Path) : Workspace where
  directory := directory
  manifest := directory.join (.ofString manifestName)
  bundle := directory.join (.ofString bundleName)
  output := directory.join (.ofString outputName)

namespace Path

/-- The class file of a source file: its stem with the extension of classes. -/
def compiledFile (source : Path) : Path := source.withExtension (.ofString classExtension)

/-- The class directory of a source directory: its name with a suffix, next to it. -/
def compiledDirectory (source : Path) : Path :=
  source.withFileName (source.fileName.getD [] ++ .ofString compiledSuffix)

end Path
end SmaliBuild
