/-
# Phrasebook.Version -- the version of the tool

The version is that of the installed distribution; the tool is distributed under two names, of which
the first one counts.  Without either the version is unknown and given as `0.0.0`.
-/
import Phrasebook.Text

namespace Phrasebook

/-- The names under which the tool is distributed, the one that counts first. -/
def distributions : List Text := ["paraphrase-gen", "paraphrase"]

/-- The version that is shown if none is known. -/
def unknownVersion : Text := "0.0.0"

/-- The version of the tool, given how to look up the version of a distribution. -/
def toolVersion (installed : Text → Option Text) : Text :=
  (distributions.findSome? installed).getD unknownVersion

end Phrasebook
