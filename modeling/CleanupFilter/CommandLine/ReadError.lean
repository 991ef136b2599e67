/-!
# Read errors

- `ReadError`: why a file cannot be read as text.
- `ReadError.message`: the error in words.
-/

namespace CleanupFilter

/-- Why a file cannot be read as text. -/
inductive ReadError
  /-- The operating system refuses, with the given description and code. -/
  | system (description : String) (code : Nat)
  /-- The contents are not UTF-8. -/
  | notText
  deriving DecidableEq, Repr

namespace ReadError

/-- Nothing is at the path. -/
def notFound : ReadError :=
  system "No such file or directory" 2

/-- The path goes on behind a file. -/
def notDirectory : ReadError :=
  system "Not a directory" 20

/-- A directory is at the path. -/
def isDirectory : ReadError :=
  system "Is a directory" 21

/-- The path, or a name in it, is longer than the operating system allows. -/
def nameTooLong : ReadError :=
  system "File name too long" 36

/-- The file may not be read by this user. -/
def permissionDenied : ReadError :=
  system "Permission denied" 13

/-- The error with a code of the operating system; `description` is for codes that are not known
here. -/
def ofCode (code : Nat) (description : String) : ReadError :=
  match code with
  | 2 => notFound
  | 13 => permissionDenied
  | 20 => notDirectory
  | 21 => isDirectory
  | 36 => nameTooLong
  | _ => system description code

/-- The error in words. -/
def message : ReadError → String
  | system description code => description ++ " (os error " ++ code.repr ++ ")"
  | notText => "stream did not contain valid UTF-8"

end ReadError

end CleanupFilter
