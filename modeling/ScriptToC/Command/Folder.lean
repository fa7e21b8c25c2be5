/-
  ScriptToC.Command.Folder — a folder to which the paths of scripts refer, and what is found there.
-/

namespace ScriptToC.Command

/-- Why a text could not be read. -/
inductive ReadFailure
  | missing
  | forbidden
  | notFolder
  | isFolder
  | nameTooLong
  | notText
  | other (text : String)
  deriving DecidableEq, Repr

def ReadFailure.text : ReadFailure → String
  | .missing => "No such file or directory (os error 2)"
  | .forbidden => "Permission denied (os error 13)"
  | .notFolder => "Not a directory (os error 20)"
  | .isFolder => "Is a directory (os error 21)"
  | .nameTooLong => "File name too long (os error 36)"
  | .notText => "stream did not contain valid UTF-8"
  | .other text => text

/-- Names of files and folders are paths from the folder itself, in their parts. -/
structure Folder where
  files : List (List String × ByteArray)
  folders : List (List String)

namespace Folder

/-- The longest name, and the longest path, in bytes. -/
def maxName : Nat := 255

def maxPath : Nat := 4095

/-- A folder exists if it is listed, or if something in it is. -/
def hasFolder (f : Folder) (place : List String) : Bool :=
  f.folders.any (place.isPrefixOf ·) || f.files.any fun (name, _) => place.isPrefixOf name && name ≠ place

/-- Where the rest of a path leads from `place`, which is none outside of the folder. Nothing is
    known there but that it has folders. -/
def follow (f : Folder) (place : Option (List String)) : List String → Except ReadFailure ByteArray
  | [] => .error .isFolder
  | "" :: rest | "." :: rest => f.follow place rest
  | ".." :: rest =>
    match place with
    | none | some [] => f.follow none rest
    | some (p :: ps) => f.follow (some (p :: ps).dropLast) rest
  | name :: rest =>
    if maxName < name.utf8ByteSize then .error .nameTooLong
    else
      match place with
      | none => .error .missing
      | some parts =>
        let parts := parts ++ [name]
        match f.files.lookup parts with
        | some bytes => if rest.isEmpty then .ok bytes else .error .notFolder
        | none => if f.hasFolder parts then f.follow (some parts) rest else .error .missing

/-- What a path refers to. A path that starts with a slash leads out of the folder. -/
def read (f : Folder) (path : String) : Except ReadFailure ByteArray :=
  if maxPath < path.utf8ByteSize then .error .nameTooLong
  else
    match path.splitOn "/" with
    | [""] => .error .missing
    | "" :: parts => f.follow none parts
    | parts => f.follow (some []) parts

end Folder

end ScriptToC.Command
