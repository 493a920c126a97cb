import Protolink.Text.Split

/-!
# Slash-separated paths

Paths are texts and are read without looking at any file system. A path is normalised to its list
of components; a path that starts with a slash is rooted, and nothing lies above its root. What a
path names that is not rooted depends on the directory that the program works in.
-/

namespace Protolink

namespace Path

abbrev Component := List Char

def here : Component := ['.']

def up : Component := ['.', '.']

/-- Whether a path starts at the root. -/
def rooted (path : List Char) : Bool := path.head? == some '/'

/-- The path that `way` names for someone who stands in `dir`. -/
def join (dir way : List Char) : List Char :=
  if rooted way then way
  else if dir = [] ∨ dir.getLast? = some '/' then dir ++ way
  else dir ++ '/' :: way

/-- The part before the last component, without the slashes that end it unless it is all slashes. -/
def directory (path : List Char) : List Char :=
  match Text.cutLast? '/' path with
  | none => []
  | some (before, _) =>
    if before.all (· == '/') then before ++ ['/']
    else (before.reverse.dropWhile (· == '/')).reverse

/-- The path without its extension. The extension starts at the last dot of the last component,
which has to stand behind a character that is no dot. -/
def stem (path : List Char) : List Char :=
  match Text.cutLast? '.' path with
  | none => path
  | some (before, after) =>
    let base := before.reverse.takeWhile (· != '/')
    if '/' ∉ after ∧ base.any (· != '.') then before else path

/-- Adds a component to a normalised path, which is kept with its last component first. -/
def push (rooted : Bool) (done : List Component) (c : Component) : List Component :=
  if c = [] ∨ c = here then done
  else if c = up then
    match done with
    | [] => if rooted then [] else [up]
    | last :: rest => if last = up then up :: done else rest
  else c :: done

/-- The components of a path in normal form: none is empty or a dot, and those that lead up stand
in front. -/
def components (path : List Char) : List Component :=
  ((Text.pieces '/' path).foldl (push (rooted path)) []).reverse

/-- How many components two paths share in front. -/
def sharedDepth : List Component → List Component → Nat
  | c :: cs, d :: ds => if c = d then sharedDepth cs ds + 1 else 0
  | _, _ => 0

/-- The way from the directory `start` to `target`: up to the last shared directory, then down. -/
def relative (start target : List Component) : List Component :=
  let shared := sharedDepth start target
  List.replicate (start.length - shared) up ++ target.drop shared

/-- A path made of components; the empty one is written as a dot. -/
def written (cs : List Component) : List Char :=
  if cs = [] then here else ['/'].intercalate cs

end Path

/-- The directory that a program works in. -/
class WorkingDirectory where
  path : List Char
  rooted : Path.rooted path = true

/-- The directory at a path, which is read from the root on. -/
@[reducible] def WorkingDirectory.ofPath (path : List Char) : WorkingDirectory where
  path := Path.join ['/'] path
  rooted := by
    unfold Path.join
    split
    · assumption
    · rfl

/-- The components of what a path names from the root on. -/
def Path.absolute [WorkingDirectory] (path : List Char) : List Path.Component :=
  Path.components (Path.join WorkingDirectory.path path)

end Protolink
