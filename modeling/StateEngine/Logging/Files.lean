import StateEngine.Fault
import StateEngine.Table

/-! The files that logging writes: directories and texts below one directory. -/
namespace StateEngine.Logging

/-- The components of a path from the top directory on. -/
abbrev Path := List String

/-- The components that a path is written with; empty ones and single dots do not count. -/
def Path.components (path : String) : List String :=
  ((path.toList.splitOn '/').map String.ofList).filter (fun c => c != "" && c != ".")

/-- The place that components lead to, of which double dots lead one up. -/
def Path.resolve (components : List String) : Path :=
  components.foldl (fun path c => if c = ".." then path.dropLast else path ++ [c]) []

structure Files where
  directories : List Path := []
  texts : Table Path String := {}

namespace Files

def isDirectory (files : Files) (path : Path) : Bool :=
  path.isEmpty || files.directories.contains path

/-- Makes the directories on the way to components and the last one itself, where they are missing. -/
def makeAlong (files : Files) (done : Path) : List String → Except Fault Files
  | [] => .ok files
  | c :: rest =>
    let path := if c = ".." then done.dropLast else done ++ [c]
    if files.texts.contains path then
      .error (if rest.isEmpty then .fileExists else .notADirectory)
    else if files.isDirectory path then makeAlong files path rest
    else makeAlong { files with directories := files.directories ++ [path] } path rest

def makeDirectory (files : Files) (components : List String) : Except Fault Files :=
  makeAlong files [] components

/-- Adds a line at the end of a file, which is made with its first line. -/
def appendLine (files : Files) (path : Path) (line : String) : Files :=
  if files.isDirectory path then files
  else
    let text := (files.texts.find? path).getD ""
    { files with texts := files.texts.insert path (text ++ line ++ "\n") }

/-- What there is, by path: a directory with a slash behind its name and no text. -/
def listing (files : Files) : List (String × Option String) :=
  files.directories.map (fun d => ("/".intercalate d ++ "/", none)) ++
    files.texts.entries.map (fun e => ("/".intercalate e.1, some e.2))

end Files

end StateEngine.Logging
