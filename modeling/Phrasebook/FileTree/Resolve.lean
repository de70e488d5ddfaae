/-
# Phrasebook.FileTree.Resolve -- paths without links

Resolving a path replaces every link on the way by where it leads and drops `..`, so that the result
is absolute and has only names.  What does not exist is kept as it is.  If a link leads back to
itself, it is kept too, and so is all that follows it; such a path is refused if it still leads
through too many links.
-/
import Phrasebook.FileTree.Walk

namespace Phrasebook

/-- Why a path cannot be resolved. -/
inductive ResolveFault where
  | refused (error : FileError)
  | loop (path : Path)
deriving DecidableEq, Repr

/-- The outcome of following parts: a place without links and the links met so far with where they
lead, or the parts that are left when a link leads back to itself. -/
inductive Trail where
  | arrived (place : Place) (known : List (Place × Option Place))
  | looped (parts : List Text)

namespace FileTree

/-- The destination of the link at a place, if one stands there. -/
def linkAt? (tree : FileTree) (place : Place) : Option Text :=
  match tree.arrive .entry [] ⟨.root, place⟩ with
  | .ok (.present _ (.link destination)) => some destination
  | _ => none

/-- The number of links in a tree. -/
def linkCount (tree : FileTree) : Nat :=
  tree.entries.countP fun e => match e.2 with | .link _ => true | _ => false

/-- Follows parts from a place.  `known` holds the links met so far: with where they lead, or with
nothing while that is being found out, which is what `inner` does for the destination of a link. -/
def followWith (tree : FileTree)
    (inner : List (Place × Option Place) → Place → List Text → Option Trail)
    (known : List (Place × Option Place)) (place : Place) (parts : List Text) : Trail :=
  match parts with
  | [] => .arrived place known
  | part :: rest =>
    if part.isEmpty || part = Path.here then tree.followWith inner known place rest
    else if part = Path.up then tree.followWith inner known place.dropLast rest
    else
      let next := place ++ [part]
      match tree.linkAt? next with
      | none => tree.followWith inner known next rest
      | some destination =>
        match known.lookup next with
        | some (some goal) => tree.followWith inner known goal rest
        | some none => .looped (next ++ rest)
        | none =>
          let start := if destination.head? = some Path.slash then [] else place
          match inner ((next, none) :: known) start (destinationParts destination) with
          | none => .looped (next ++ rest)
          | some (.looped left) => .looped (left ++ rest)
          | some (.arrived goal known) =>
            tree.followWith inner ((next, some goal) :: known) goal rest

/-- Follows parts from a place; `depth` bounds the number of links that are being followed at one
time. -/
def follow (tree : FileTree) : Nat → List (Place × Option Place) → Place → List Text → Trail
  | 0 => tree.followWith fun _ _ _ => none
  | depth + 1 => tree.followWith fun known place parts => some (tree.follow depth known place parts)

/-- Parts without empty ones, `.` and `..`, each `..` taking away the part before it. -/
def collapse (parts : List Text) : Place :=
  parts.foldl (fun acc part =>
    if part.isEmpty || part = Path.here then acc else if part = Path.up then acc.dropLast else acc ++ [part]) []

/-- Resolves a path that is taken from a working directory. -/
def resolve (tree : FileTree) (directory : Place) (path : Path) : Except ResolveFault Path :=
  match pathError? path.text with
  | some .surrogateInPath => .error (.refused .surrogateInPath)
  | some .zeroInPath => .error (.refused .zeroInPath)
  | _ =>
    let start := if path.isAbsolute then [] else directory
    let place := match tree.follow (tree.linkCount + 1) [] start path.parts with
      | .arrived place _ => place
      | .looped parts => collapse parts
    let resolved : Path := ⟨.root, place⟩
    match tree.arrive .target [] resolved with
    | .error .tooManyLinks => .error (.loop resolved)
    | _ => .ok resolved

end FileTree

end Phrasebook
