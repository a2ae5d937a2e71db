/-!
# Paths of files

* `FilePath.fileName?`: the last component of a path, if it names a file.
* `FilePath.extension?`: what follows the last dot of a file name.
* `FilePath.withExtension`: a path with another extension.
-/

namespace ZoneRelay.FilePath

/-- A path given backwards, without slashes and single dots at its end. -/
def bareBack : List Char → List Char
  | '/' :: r => bareBack r
  | '.' :: '/' :: r => bareBack r
  | s => s

/-- A path without slashes and single dots at its end. -/
def bare (path : List Char) : List Char :=
  (bareBack path.reverse).reverse

/-- The last component of a path, and what is before it. -/
def split (path : List Char) : List Char × List Char :=
  let p := bare path
  let file := (p.reverse.takeWhile (· != '/')).reverse
  (p.take (p.length - file.length), file)

/-- Whether a last component names a file. -/
def isFile (file : List Char) : Bool :=
  !file.isEmpty && file != ['.'] && file != ['.', '.']

/-- The last component of a path, if it names a file. -/
def fileName? (path : String) : Option (List Char) :=
  let file := (split path.toList).2
  if isFile file then some file else none

/-- The part of a file name before its last dot; a dot in front is no such dot. -/
def stem (file : List Char) : List Char :=
  let after := file.reverse.takeWhile (· != '.')
  let before := file.take (file.length - after.length - 1)
  if before.isEmpty then file else before

/-- What follows the last dot of a file name, if that dot is not in front. -/
def extension? (path : String) : Option (List Char) :=
  match fileName? path with
  | none => none
  | some file =>
    let s := stem file
    if s.length = file.length then none else some (file.drop (s.length + 1))

/-- The path with another extension, with none if `extension` is empty. A path that names no file
stays as it is. -/
def withExtension (path extension : String) : String :=
  let (folder, file) := split path.toList
  if isFile file then
    String.ofList (folder ++ stem file ++
      if extension.isEmpty then [] else '.' :: extension.toList)
  else path

end ZoneRelay.FilePath
