/-
# Phrasebook.Java.Printer -- declaration trees as source text

The layout has these rules:

* two spaces for each enclosing type or method;
* an empty line after the package, and after the imports if there are any;
* an empty line between neighbouring members of a type, unless both are fields;
* the text ends with one newline.

Documentation is cut into lines and cannot close its comment early: `*/` is printed with the entity
for the slash.  A line that is blank is printed without its content.

A slot that holds an unsupported node is an error that names the node's sort; the first such slot in
document order is reported.
-/
import Phrasebook.Java.Node
import Phrasebook.Java.Layout
import Phrasebook.Text.Lines

namespace Phrasebook.Java

/-- Why a tree cannot be printed. -/
inductive PrintFault where
  | unsupportedMember (sort : Text)
  | unsupportedBodyItem (sort : Text)
  | unbalancedDedent
deriving DecidableEq, Repr

/-- The fault in words. -/
def PrintFault.message : PrintFault → Text
  | .unsupportedMember sort => "Unsupported member: " ++ sort
  | .unsupportedBodyItem sort => "Unsupported body item: " ++ sort
  | .unbalancedDedent => "Unbalanced dedent"

namespace Layout

/-- Goes one level back; below level zero this is a fault. -/
def dedent (out : Layout) : Except PrintFault Layout :=
  match out.dedent? with
  | some out => .ok out
  | none => .error .unbalancedDedent

end Layout

/-! ## Comments -/

/-- A line of documentation inside its comment. -/
def javadocLine (l : Text) : Text := if l.isBlank then " *" else " * " ++ l

/-- The lines of a Javadoc comment. -/
def javadocLines (doc : Text) : List Text :=
  let content := (Text.replace "*/" "*&#47;" doc).commentLines
  ("/**" : Text) :: content.map javadocLine ++ [(" */" : Text)]

/-- A line of text as a line comment. -/
def commentLine (l : Text) : Text := if l.isBlank then "//" else "// " ++ l

/-- The lines of a line comment: one for each line of its text, since a line break inside the
comment would end it. -/
def commentSourceLines (comment : Text) : List Text := comment.commentLines.map commentLine

/-! ## Members -/

/-- The opening line of a method. -/
def MethodHead.opening (m : MethodHead) : Text :=
  let params := Text.join ", " (m.params.map fun p => p.type ++ " " ++ p.name)
  let result := match m.returnType with
    | none => []
    | some type => type ++ " "
  Modifier.text m.modifiers ++ result ++ m.name ++ "(" ++ params ++ ") \x7b"

/-- The opening line of a type; an empty base is no base. -/
def TypeHead.opening (t : TypeHead) : Text :=
  let base := match t.base with
    | none => []
    | some base => if base.isEmpty then [] else " extends " ++ base
  Modifier.text t.modifiers ++ t.kind ++ " " ++ t.name ++ base ++ " \x7b"

/-- The line of a field. -/
def Field.source (f : Field) : Text :=
  Modifier.text f.modifiers ++ f.type ++ " " ++ f.name ++ ";"

/-- The line that closes a type or a method. -/
def closing : Text := "\x7d"

/-- Whether an empty line stands between a member and the one before it. -/
def separated : Option Node → Node → Bool
  | none, _ => false
  | some prev, node => !(prev.isField && node.isField)

/-- Prints one item of a method body. -/
def writeBodyItem (out : Layout) : Node → Except PrintFault Layout
  | .comment text => .ok (out.addLines (commentSourceLines text))
  | .statement code => .ok (out.line (code ++ ";"))
  | node => .error (.unsupportedBodyItem node.sort)

/-- Prints a method with its documentation. -/
def writeMethod (head : MethodHead) (body : List Node) (out : Layout) :
    Except PrintFault Layout := do
  let out := match head.javadoc with
    | none => out
    | some doc => out.addLines (javadocLines doc)
  let out ← body.foldlM writeBodyItem (out.line head.opening).indent
  return (← out.dedent).line closing

mutual

/-- Prints a member at the current level. -/
def writeMember : Node → Layout → Except PrintFault Layout
  | .type head members, out => do
    let out ← writeMembers none members (out.line head.opening).indent
    return (← out.dedent).line closing
  | .method head body, out => writeMethod head body out
  | .field f, out => .ok (out.line f.source)
  | node, _ => .error (.unsupportedMember node.sort)

/-- Prints the members that follow a given one. -/
def writeMembers : Option Node → List Node → Layout → Except PrintFault Layout
  | _, [], out => .ok out
  | prev, node :: nodes, out => do
    let out := if separated prev node then out.line [] else out
    writeMembers (some node) nodes (← writeMember node out)

end

/-! ## Source files -/

/-- Prints what stands before the type of a source file. -/
def writeHead (file : FileHead) : Layout :=
  let out : Layout := match file.header with
    | none => { }
    | some header => Layout.addLines { } (commentSourceLines header)
  let out := (out.line ("package " ++ file.package ++ ";")).line []
  if file.imports.isEmpty then out
  else (out.addLines (file.imports.map fun i => "import " ++ i ++ ";")).line []

/-- The source text of a file. -/
def SourceFile.print (file : SourceFile) : Except PrintFault Text :=
  match file.type with
  | none => .ok (writeHead file.toFileHead).text
  | some type => (writeMember type.toNode (writeHead file.toFileHead)).map Layout.text

end Phrasebook.Java
