import BuildMatrix.Path

/-!
# Relative paths

`Path.relativeTo?` is the way from a base directory to a path, found by comparing
their components.  Shared first components are skipped.  From where they differ
the way climbs once for each component that the base has left and then follows
the path.

Nothing is looked up, so links and names are taken at their word.  There is no
way from an absolute base to a relative path, and none out of a base whose
remaining part climbs itself, since the name of the directory it climbs to is
not known.
-/

namespace BuildMatrix.Path

/-- The way from the components of a base to those of a path.  `started` says that the two have
differed before, so that equal components are no longer shared. -/
def wayBetween : (started : Bool) → (base path : List Component) → Option (List Component)
  | _, [], path => some path
  | _, _ :: base, [] => (wayBetween true base []).map (.up :: ·)
  | started, b :: base, c :: path =>
      if ¬ started ∧ b = c then wayBetween false base path
      else if b = .here then (wayBetween true base path).map (c :: ·)
      else if b = .up then none
      else some (.up :: base.map (fun _ => .up) ++ c :: path)
termination_by structural _ base => base

/-- The way from `base` to `p`, if their components tell. -/
def relativeTo? (p base : Path) : Option Path :=
  if p.isAbsolute ≠ base.isAbsolute then
    if p.isAbsolute then some p else none
  else (wayBetween false base.components p.components).map ofComponents

/-- The way from `base` to `p`; `p` itself where there is none. -/
def relativeTo (p base : Path) : Path := (p.relativeTo? base).getD p

example : (Path.mk "a/c/d").relativeTo ⟨"a/b"⟩ = ⟨"../c/d"⟩ := by decide +kernel

example : (Path.mk "b").relativeTo ⟨"./a"⟩ = ⟨"b/.."⟩ := by decide +kernel

example : (Path.mk "..").relativeTo ⟨"/"⟩ = ⟨".."⟩ := by decide +kernel

end BuildMatrix.Path
