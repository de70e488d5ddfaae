/-
# Phrasebook.Settings -- the settings of the generator

Settings say where generated files go, which imports and header comment they carry, and whether
names are checked before anything is built.  The defaults are those used without a settings file.
-/
import Phrasebook.Text

namespace Phrasebook

/-- The settings of one run. -/
structure Settings where
  outputDir : Text := "build/generated/source/paraphrase"
  imports : List Text :=
    List.map Text.ofString
      ["android.content.Context", "android.content.res.Resources", "android.view.View"]
  header : Text := "Generated by Paraphrase plugin. Do not modify!"
  validate : Bool := true
deriving DecidableEq, Repr, Inhabited

end Phrasebook
