namespace TerraDoc.Path

/-- A path under another one. A path that starts with a slash stands for itself. -/
def join (base path : List Char) : List Char :=
  if path.head? = some '/' || base.isEmpty then path
  else if base.getLast? = some '/' then base ++ path
  else base ++ '/' :: path

/-- The names along a path. Repeated slashes and single dots say nothing. -/
def names (path : List Char) : List (List Char) :=
  (path.splitOn '/').filter fun name => !name.isEmpty && name != ['.']

/-- The steps along a path, in which dots count. A slash at the end is a step to the folder itself. -/
def steps (path : List Char) : List (List Char) :=
  let steps := (path.splitOn '/').filter (!·.isEmpty)
  if path.getLast? = some '/' then steps ++ [['.']] else steps

def isAbsolute (path : List Char) : Bool :=
  path.head? = some '/'

/-- The name at the end of a path, unless the path ends in the folder above. -/
def fileName? (path : List Char) : Option (List Char) :=
  match (names path).getLast? with
  | some name => if name = ['.', '.'] then none else some name
  | none => none

/-- The text after the last dot of a name, if the dot does not lead it. -/
def nameExtension? (name : List Char) : Option (List Char) :=
  let tail := name.reverse.takeWhile (· != '.')
  let before := name.length - tail.length
  if before ≤ 1 then none else some tail.reverse

def extension? (path : List Char) : Option (List Char) :=
  (fileName? path).bind nameExtension?

end TerraDoc.Path
