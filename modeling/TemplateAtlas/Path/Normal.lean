import TemplateAtlas.Path.Basic

/-!
# Normal forms of paths

The normal form resolves dots and double dots without asking the files. Double dots above the root
are the root; at the start of a relative path they stay.
-/

namespace TemplateAtlas

open RawText (slash)

namespace Path

/-- One more step after the steps of a normal form, which are given with the last one first. -/
def pushStep (steps : List Component) : Component → List Component
  | .current => steps
  | .parent =>
    match steps with
    | .name _ :: rest => rest
    | .root :: rest => .root :: rest
    | rest => .parent :: rest
  | c => c :: steps

/-- The steps that are left when dots and double dots are resolved. -/
def normalSteps (steps : List Component) : List Component :=
  (steps.foldl pushStep []).reverse

/-- The path with these steps. -/
def ofSteps : List Component → Path
  | .root :: rest => ⟨⟨slash :: [slash].intercalate (rest.map fun c => c.text.bytes)⟩⟩
  | steps => ⟨⟨[slash].intercalate (steps.map fun c => c.text.bytes)⟩⟩

/-- The path with dots and double dots resolved. -/
def normalize (p : Path) : Path :=
  ofSteps (normalSteps p.components)

/-- The normal form of the path read in the directory `working`. -/
def absolutize (p working : Path) : Path :=
  if p.isAbsolute then p.normalize else (working.join p).normalize

end Path

end TemplateAtlas
