import Montage.FrameRate

/-!
# What can go wrong

`Fault` lists the causes for which an element description is refused, `Error` adds
where it happened and the failures of the other parts of the library.  The wording
of each of them is given once, by `message`.
-/

namespace Montage

/-- Why an element description is refused. -/
inductive Fault where
  /-- The part before the first semicolon is blank. -/
  | missingName
  /-- No identifier is given. -/
  | missingId (name : String)
  /-- An instant of an animation is no finite number. -/
  | badInstant (key token : String)
  /-- There are not as many values as instants. -/
  | countMismatch (key : String) (instants values : Nat)
  /-- An animation of fewer than two keyframes. -/
  | tooFewKeyframes (key : String) (count : Nat)
  /-- A value that announces an animation but does not have its form. -/
  | malformedAnimation (key : String)
  deriving DecidableEq, Repr

/-- The wording of a cause. -/
def Fault.message : Fault → String
  | .missingName => "missing component name"
  | .missingId name => s!"missing required 'id' for element '{name}'"
  | .badInstant key token =>
      s!"property '{key}': invalid animation timestamp '{token}'"
  | .countMismatch key instants values =>
      s!"property '{key}': {instants} timestamps but {values} values"
  | .tooFewKeyframes key count =>
      s!"property '{key}': animation needs at least 2 keyframes, got {count}"
  | .malformedAnimation key =>
      s!"property '{key}': malformed animation, expected " ++
        "@animate[t0,t1,...]:[v0,v1,...]"

/-- The wording of an unusable fraction. -/
def RateFault.message : RateFault → String
  | .noSeconds => "Fps den must be > 0"
  | .noFrames => "Fps num must be > 0"

/-- A failure of the library. -/
inductive Error where
  /-- The description at this position of its batch is refused. -/
  | element (index : Nat) (source : String) (fault : Fault)
  /-- A batch cannot be assembled into a tree. -/
  | assembly (reason : String)
  /-- A document cannot be read or written. -/
  | document (reason : String)
  /-- There is no easing curve of this name. -/
  | unknownEase (name : String)
  /-- A fraction is no frame rate. -/
  | rate (fault : RateFault)
  deriving DecidableEq, Repr

namespace Error

/-- No element of the batch can be the root. -/
def noRoot : Error :=
  .assembly "no root found"

/-- The wording of a failure. -/
def message : Error → String
  | element index source fault =>
      s!"parse error in element #{index} ('{source}'): {fault.message}"
  | assembly reason => s!"conversion error: {reason}"
  | document reason => s!"serialization error: {reason}"
  | unknownEase name => s!"unknown easing '{name}'"
  | rate fault => fault.message

/-- The cause for which an element description was refused, if that is what
happened. -/
def fault? : Error → Option Fault
  | element _ _ fault => some fault
  | _ => none

end Error
end Montage
