import TerraDoc.Ignore.Rule

namespace TerraDoc.Files

inductive FileError where
  | notFound
  | notFolder
  | isFolder
  | tooManyLinks
  | nulInPath
  | notText
  /-- The folder at a path cannot be listed. -/
  | unlisted (path : List Char) (cause : FileError)
  /-- The rules for a listing are malformed. -/
  | malformed (problems : List Ignore.Problem)
deriving DecidableEq, Repr

def FileError.message : FileError → String
  | .notFound => "No such file or directory (os error 2)"
  | .notFolder => "Not a directory (os error 20)"
  | .isFolder => "Is a directory (os error 21)"
  | .tooManyLinks => "Too many levels of symbolic links (os error 40)"
  | .nulInPath => "file name contained an unexpected NUL byte"
  | .notText => "stream did not contain valid UTF-8"
  | .unlisted path cause =>
      let path := String.ofList path
      path ++ ": IO error for operation on " ++ path ++ ": " ++ cause.message
  | .malformed problems => "\n".intercalate (problems.map (·.message))

end TerraDoc.Files
