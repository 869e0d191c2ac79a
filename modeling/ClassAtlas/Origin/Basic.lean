/-!
# Class origins

Origin classification of classes and the renderer color of each origin. Specification:
`SPEC_FULL.md` §3, line 22, §4.1, line 38, and §10.6, lines 166–167.
-/

namespace ClassAtlas

/-- Class origin. -/
inductive Origin where
  | rootObject
  | platform
  | application
  | unknown
  deriving DecidableEq, Repr

/-- RGB color. -/
structure Color where
  red : Float32
  green : Float32
  blue : Float32

/-- Components of a color in order. -/
def Color.toList (color : Color) : List Float32 := [color.red, color.green, color.blue]

namespace Origin

/-- All origins. -/
def all : List Origin := [.rootObject, .platform, .application, .unknown]

/-- Serialized name of an origin. -/
def label : Origin → String
  | .rootObject => "root_object"
  | .platform => "platform"
  | .application => "application"
  | .unknown => "unknown"

/-- Name of an origin in the text report. -/
def title : Origin → String
  | .rootObject => "RootObject"
  | .platform => "Platform"
  | .application => "Application"
  | .unknown => "Unknown"

/-- Renderer color of an origin (§10.6). -/
def color : Origin → Color
  | .rootObject => ⟨1, 1, 1⟩
  | .platform => ⟨1, 0, 0⟩
  | .application => ⟨0, 1, 0⟩
  | .unknown => ⟨0, 0, 1⟩

end Origin

end ClassAtlas
