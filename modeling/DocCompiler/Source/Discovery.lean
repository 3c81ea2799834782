import DocCompiler.Source.Language

/-!
The detectors of a run: the known ones and those of plug-ins, restricted to the requested names.
-/

namespace DocCompiler

/-- What a plug-in offers under its name. -/
inductive Offer
  | detector (detector : Detector)
  /-- Something that is no detector. -/
  | other
  /-- The plug-in cannot be loaded. -/
  | broken (reason : String)

/-- A plug-in. -/
structure Plugin where
  name : String
  offer : Offer

/-- Why there are no detectors for a run. -/
inductive DiscoveryError
  | unloadable (name reason : String)
  | notADetector
  /-- Requested names that nothing offers, sorted. -/
  | unknown (names : List String)
  deriving DecidableEq, Repr

/-- The wording of an error. -/
def DiscoveryError.message : DiscoveryError → String
  | .unloadable name reason => "Failed to load detector entry point '" ++ name ++ "': " ++ reason
  | .notADetector => "Detector entry point must be a BoundaryDetector subclass or factory"
  | .unknown names => "Unknown detectors requested: " ++ Text.joinWith ", " names

namespace Detector

/-- The detectors found so far, the names they were found under, and the requested names that are
still missing; without a request, every name is wanted. -/
structure Selection where
  found : List Detector := []
  names : List String := []
  missing : Option (List String)

/-- Whether something offered under a name, in lower case, is wanted and new. -/
def Selection.wants (selection : Selection) (name : String) : Bool :=
  (selection.missing.all fun missing => missing.contains name) && !selection.names.contains name

/-- Adds a detector under a name in lower case. -/
def Selection.add (selection : Selection) (name : String) (detector : Detector) : Selection :=
  { found := selection.found ++ [detector]
    names := selection.names ++ [name]
    missing := selection.missing.map fun missing => missing.filter (· != name) }

/-- Adds a known detector when it is wanted. -/
def selectBuiltin (selection : Selection) (detector : Detector) : Selection :=
  if selection.wants detector.name then selection.add detector.name detector else selection

/-- Adds the detector of a plug-in when it is wanted. A plug-in must be loadable even if it is not
wanted. -/
def selectPlugin (selection : Selection) (plugin : Plugin) : Except DiscoveryError Selection :=
  let name := Text.lower plugin.name
  match plugin.offer with
  | .broken reason => .error (.unloadable plugin.name reason)
  | .other => if selection.wants name then .error .notADetector else .ok selection
  | .detector detector =>
      .ok (if selection.wants name then selection.add name detector else selection)

/-- The detectors with the requested names, in any case; without a request, all of them. -/
def discover (requested : List String) (plugins : List Plugin) :
    Except DiscoveryError (List Detector) := do
  let missing := if requested.isEmpty then none else some (requested.map Text.lower).eraseDups
  let selection := builtin.foldl selectBuiltin { missing }
  let selection ← plugins.foldlM selectPlugin selection
  match selection.missing with
  | none | some [] => return selection.found
  | some names => throw (.unknown (names.mergeSort fun a b => decide (a ≤ b)))

end Detector

end DocCompiler
