import StackVM.Code

/-!
# Files

What a command sees of the files that its arguments name: their contents, or the reason why they cannot
be read. `Files.inFolder` gives this view of a folder that holds files only.
-/

namespace StackVM

namespace CommandLine

/-- Why a file cannot be read. -/
inductive Unreadable where
  | missing
  | denied
  /-- A file stands where the path needs a folder. -/
  | notDirectory
  | isDirectory
  | nameTooLong
  /-- Text was asked for, and the bytes encode none. -/
  | notText
  | other (reason : String)
deriving DecidableEq, Repr

def Unreadable.message : Unreadable → String
  | .missing => "No such file or directory (os error 2)"
  | .denied => "Permission denied (os error 13)"
  | .notDirectory => "Not a directory (os error 20)"
  | .isDirectory => "Is a directory (os error 21)"
  | .nameTooLong => "File name too long (os error 36)"
  | .notText => "stream did not contain valid UTF-8"
  | .other reason => reason

/-- Reads a file, or says why it cannot be read. -/
abbrev Files := String → Except Unreadable Code

/-- The text that bytes encode. -/
def decodeText (bytes : Code) : Except Unreadable String :=
  match String.fromUTF8? ⟨bytes⟩ with
  | some text => .ok text
  | none => .error .notText

/-! ### A folder of files -/

/-- Where a path leads. -/
inductive Place where
  | folder
  /-- A folder around the one that holds the files. -/
  | outside
  | file (contents : Code)
deriving DecidableEq, Repr

/-- Follows one part of a path, in a folder with the given files. -/
def Place.follow (files : String → Option Code) : Place → String → Except Unreadable Place
  | .file _, _ => .error .notDirectory
  | place, "" | place, "." => .ok place
  | _, ".." => .ok .outside
  | place, name =>
    if 255 < name.utf8ByteSize then .error .nameTooLong
    else if place = .outside then .error .missing
    else
      match files name with
      | some contents => .ok (.file contents)
      | none => .error .missing

/-- The files of a folder, named by paths that start in it. -/
def Files.inFolder (files : String → Option Code) : Files := fun path =>
  if path = "" then .error .missing
  else if 4096 ≤ path.utf8ByteSize then .error .nameTooLong
  else
    let start : Place := if path.startsWith "/" then .outside else .folder
    match (path.splitOn "/").foldlM (Place.follow files) start with
    | .ok (.file contents) => .ok contents
    | .ok _ => .error .isDirectory
    | .error reason => .error reason

end CommandLine

end StackVM
