/-!
# Files by path

A path is a list of names divided by slashes.  An empty name and a single dot
stay where they are, two dots lead to the folder above.  Paths are followed
from the working folder, which holds texts under plain names; of the folders
above it nothing else is known than that they are there.

A file that cannot be read has a cause.  A name that leads on from a file, or
a slash after it, is a fault of its own, and so is a path that ends at a
folder.
-/

namespace Treewalk

/-- Why a file cannot be read as a text. -/
inductive ReadFault where
  | missing
  /-- The path leads on from something that is no folder. -/
  | notFolder
  /-- The path ends at a folder. -/
  | isFolder
  | nameTooLong
  /-- The bytes of the file are not in the encoding of texts. -/
  | notText
  | other (message : String)
deriving DecidableEq, Repr

namespace ReadFault

/-- The wording of a cause. -/
def message : ReadFault → String
  | missing => "No such file or directory (os error 2)"
  | notFolder => "Not a directory (os error 20)"
  | isFolder => "Is a directory (os error 21)"
  | nameTooLong => "File name too long (os error 36)"
  | notText => "stream did not contain valid UTF-8"
  | other message => message

end ReadFault

/-- A folder of texts by name. -/
structure Folder where
  files : List (String × String)
deriving DecidableEq, Repr

namespace Folder

/-- The most bytes of one name. -/
def maxName : Nat := 255

/-- The most bytes of a whole path. -/
def maxPath : Nat := 4095

/-- The name stays in the folder it is followed from. -/
def stays (name : String) : Bool :=
  name == "" || name == "."

/-- Follow a path outside the folder, where only folders are known. -/
def followOutside (names : List String) : ReadFault :=
  if names.all fun name => stays name || name == ".." then .isFolder
  else .missing

/-- Follow names from the folder to a text. -/
def follow (folder : Folder) : List String → Except ReadFault String
  | [] => .error .isFolder
  | name :: names =>
    if stays name then
      folder.follow names
    else if name == ".." then
      .error (followOutside names)
    else if maxName < name.utf8ByteSize then
      .error .nameTooLong
    else
      match folder.files.lookup name with
      | none => .error .missing
      | some text => if names.isEmpty then .ok text else .error .notFolder

/-- Read the text at a path; a leading slash leads outside the folder. -/
def read (folder : Folder) (path : String) : Except ReadFault String :=
  if path.isEmpty then
    .error .missing
  else if maxPath < path.utf8ByteSize then
    .error .nameTooLong
  else if path.startsWith "/" then
    .error (followOutside (path.splitOn "/"))
  else
    folder.follow (path.splitOn "/")

end Folder

end Treewalk
