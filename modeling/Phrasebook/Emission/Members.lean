/-
# Phrasebook.Emission.Members -- the declarations generated for a phrase

For each phrase there is a factory method and a builder class.  The constructor of a builder hands
the quoted tokens to the base class, and its setters store their argument at the position of the
token, one setter for each occurrence.  The base class `AbstractPhrase` is the same for all batches.
-/
import Phrasebook.Phrase
import Phrasebook.Java.Node

namespace Phrasebook

open Java

/-- The static method that makes a new builder. -/
def factoryMethod (p : Phrase) : Node :=
  .method
    { name := p.name
      returnType := some p.className
      modifiers := [.isPublic, .isStatic]
      javadoc := p.documentation }
    [.statement ("return new " ++ p.className ++ "()")]

/-- A token as a string literal; tokens are not escaped, identifiers need no escape. -/
def quoteToken (token : Text) : Text := "\"" ++ token ++ "\""

/-- The constructor of a builder. -/
def builderConstructor (p : Phrase) : Node :=
  .method { name := p.className, modifiers := [.isPrivate] }
    [.statement ("super(" ++ Text.join ", " (p.tokens.map quoteToken) ++ ")")]

/-- The setter for the token at a position. -/
def setter (p : Phrase) (token : Text) (position : Nat) : Node :=
  .method
    { name := token
      returnType := some p.className
      modifiers := [.isPublic]
      params := [⟨"String", token⟩] }
    [.statement ("values[" ++ Text.ofNat position ++ "] = " ++ token), .statement "return this"]

/-- The builder class of a phrase. -/
def builderClass (p : Phrase) : TypeDecl where
  name := p.className
  modifiers := [.isPublic, .isStatic, .isFinal]
  base := some basePhraseClassName
  members := builderConstructor p :: p.tokens.zipIdx.map fun (token, i) => setter p token i

/-- An overload of `build` with one parameter and one statement. -/
def buildOverload (paramType paramName : Text) (body : List Node) : Node :=
  .method
    { name := "build"
      returnType := some "String"
      modifiers := [.isPublic, .isFinal]
      params := [⟨paramType, paramName⟩] }
    body

/-- The base class of all builders. -/
def basePhraseClass : TypeDecl where
  name := basePhraseClassName
  modifiers := [.isPublic, .isAbstract, .isStatic]
  members := [
    .field { type := "String[]", name := "keys", modifiers := [.isPrivate, .isFinal] },
    .field { type := "String[]", name := "values", modifiers := [.isFinal] },
    .method
      { name := basePhraseClassName, modifiers := [.isPrivate], params := [⟨"String...", "keys"⟩] }
      [.statement "this.keys = keys", .statement "this.values = new String[keys.length]"],
    buildOverload "View" "view"
      [.statement "return build(view.getContext().getResources())"],
    buildOverload "Context" "context" [.statement "return build(context.getResources())"],
    buildOverload "Resources" "res"
      [.statement "return \"\"", .comment "TODO do actual replacement"]]

/-- The constructor that keeps the outer class from being instantiated. -/
def hiddenConstructor : Node :=
  .method { name := phraseClassName, modifiers := [.isPrivate] }
    [.statement "throw new AssertionError(\"No instances.\")"]

end Phrasebook
