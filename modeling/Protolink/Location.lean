import Protolink.Descriptor

/-!
# Source locations

A path leads from a file descriptor to a declaration: a field number of the descriptor, an index in
that list, and so on. The comments of a file are found by path.
-/

namespace Protolink

/-- The comments that belong to one declaration of a file. -/
structure Location where
  file : String
  path : List Int
  detached : List String := []
  leading : String := ""
  trailing : String := ""
deriving DecidableEq, Repr, Inhabited

/-- The commented places of one file. -/
structure CommentIndex where
  file : String
  comments : List CommentDescriptor

namespace CommentIndex

def ofFile (d : FileDescriptor) : CommentIndex := ⟨d.name, d.comments⟩

/-- The location at a path, with the comments of the first place that has this path. -/
def find (index : CommentIndex) (path : List Int) : Location :=
  match index.comments.find? (·.path == path) with
  | some c => ⟨index.file, path, c.detached, c.leading, c.trailing⟩
  | none => { file := index.file, path }

end CommentIndex

/-- The location at a path of a file. -/
def FileDescriptor.location (d : FileDescriptor) (path : List Int) : Location :=
  (CommentIndex.ofFile d).find path

/-! ## Field numbers in paths, by what they lead to -/

namespace Tag

def fileMessages : Int := 4
def fileEnums : Int := 5
def fileServices : Int := 6
def fileExtensions : Int := 7
def fields : Int := 2
def nested : Int := 3
def enums : Int := 4
def extensions : Int := 6
def oneofs : Int := 8
def values : Int := 2
def methods : Int := 2

end Tag

end Protolink
