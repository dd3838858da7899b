import IconConstraints.FontLibrary

/-!
# Outlines

An outline is a path of lines and curves.  Its bounds are tight: a curve counts
with its end points and with its points at the extrema, not with its control
points.
-/

namespace IconConstraints

namespace Outline

/-- A drawn piece of a path with its start. -/
inductive Segment where
  | line (p₀ p₁ : Point)
  | quad (p₀ p₁ p₂ : Point)
  | cubic (p₀ p₁ p₂ p₃ : Point)
  deriving DecidableEq, Repr

/-! ## Extrema -/

def isFinite (x : Float) : Bool :=
  !x.isNaN && !x.isInf

def withSign (magnitude sign : Float) : Float :=
  if sign < 0.0 || (sign == 0.0 && sign.toBits != (0.0 : Float).toBits) then -magnitude else magnitude

/-- The root of `c + b * t`, where there is one. -/
def linearRoots (c b : Float) : List Float :=
  let root := -c / b
  if isFinite root then [root]
  else if c == 0.0 && b == 0.0 then [0.0]
  else []

/-- The root of greater magnitude of `s₀ + s₁ * t + t * t` and the other one, if it is finite. -/
def pairedRoots (s₀ root : Float) : List Float :=
  let other := s₀ / root
  if isFinite other then [root, other] else [root]

/-- The real roots of `c + b * t + a * t * t`. -/
def quadraticRoots (c b a : Float) : List Float :=
  let s₀ := c * (1.0 / a)
  let s₁ := b * (1.0 / a)
  if !isFinite s₀ || !isFinite s₁ then linearRoots c b
  else
    let discriminant := s₁ * s₁ - 4.0 * s₀
    if !isFinite discriminant then pairedRoots s₀ (-s₁)
    else if discriminant < 0.0 then []
    else if discriminant == 0.0 then [-0.5 * s₁]
    else pairedRoots s₀ (-0.5 * (s₁ + withSign discriminant.sqrt s₁))

def isInner (t : Float) : Bool :=
  decide (0.0 < t) && decide (t < 1.0)

/-- Where a quadratic curve turns along one axis. -/
def quadTurns (p₀ p₁ p₂ : Float) : List Float :=
  let d₀ := p₁ - p₀
  let dd := (p₂ - p₁) - d₀
  if dd == 0.0 then [] else [-d₀ / dd].filter isInner

/-- Where a cubic curve turns along one axis. -/
def cubicTurns (p₀ p₁ p₂ p₃ : Float) : List Float :=
  let d₀ := p₁ - p₀
  let d₁ := p₂ - p₁
  let d₂ := p₃ - p₂
  (quadraticRoots d₀ (2.0 * (d₁ - d₀)) (d₀ - 2.0 * d₁ + d₂)).filter isInner

/-! ## Points of curves -/

def quadAt (p₀ p₁ p₂ t : Float) : Float :=
  let mt := 1.0 - t
  p₀ * (mt * mt) + (p₁ * (mt * 2.0) + p₂ * t) * t

def cubicAt (p₀ p₁ p₂ p₃ t : Float) : Float :=
  let mt := 1.0 - t
  p₀ * (mt * mt * mt) + (p₁ * (mt * mt * 3.0) + (p₂ * (mt * 3.0) + p₃ * t) * t) * t

/-! ## Bounds -/

def boxOf (p q : Point) : BoundingBox where
  xMin := smaller p.x q.x
  yMin := smaller p.y q.y
  xMax := larger p.x q.x
  yMax := larger p.y q.y

def extend (b : BoundingBox) (p : Point) : BoundingBox :=
  b.union (boxOf p p)

namespace Segment

def start : Segment → Point
  | .line p₀ _ => p₀
  | .quad p₀ _ _ => p₀
  | .cubic p₀ _ _ _ => p₀

def finish : Segment → Point
  | .line _ p₁ => p₁
  | .quad _ _ p₂ => p₂
  | .cubic _ _ _ p₃ => p₃

/-- The points at the extrema of both axes. -/
def turningPoints : Segment → List Point
  | .line _ _ => []
  | .quad p₀ p₁ p₂ =>
    (quadTurns p₀.x p₁.x p₂.x ++ quadTurns p₀.y p₁.y p₂.y).map fun t =>
      ⟨quadAt p₀.x p₁.x p₂.x t, quadAt p₀.y p₁.y p₂.y t⟩
  | .cubic p₀ p₁ p₂ p₃ =>
    (cubicTurns p₀.x p₁.x p₂.x p₃.x ++ cubicTurns p₀.y p₁.y p₂.y p₃.y).map fun t =>
      ⟨cubicAt p₀.x p₁.x p₂.x p₃.x t, cubicAt p₀.y p₁.y p₂.y p₃.y t⟩

def bounds (s : Segment) : BoundingBox :=
  s.turningPoints.foldl extend (boxOf s.start s.finish)

end Segment

/-- Where an element ends, if it says so itself. -/
def target? : PathElement → Option Point
  | .move p => some p
  | .line p => some p
  | .quad _ p => some p
  | .cubic _ _ p => some p
  | .close => none

def samePoint (p q : Point) : Bool :=
  p.x == q.x && p.y == q.y

/-- The segments of a path whose subpath began at `start` and that has come to `here`. -/
def segmentsFrom (start here : Point) : List PathElement → List Segment
  | [] => []
  | .move p :: rest => segmentsFrom p p rest
  | .line p :: rest => .line here p :: segmentsFrom start p rest
  | .quad p₁ p :: rest => .quad here p₁ p :: segmentsFrom start p rest
  | .cubic p₁ p₂ p :: rest => .cubic here p₁ p₂ p :: segmentsFrom start p rest
  | .close :: rest =>
    if samePoint here start then segmentsFrom start here rest
    else .line here start :: segmentsFrom start start rest

/-- The segments of a path.  A path that begins without a move starts where its first element ends. -/
def segments (path : List PathElement) : List Segment :=
  match path with
  | [] => []
  | first :: _ =>
    let start := (target? first).getD ⟨0.0, 0.0⟩
    segmentsFrom start start path

/-- The bounds of all segments; a path that draws nothing has an empty box at the origin. -/
def bounds (path : List PathElement) : BoundingBox :=
  match (segments path).map (·.bounds) with
  | [] => ⟨0.0, 0.0, 0.0, 0.0⟩
  | b :: rest => rest.foldl .union b

end Outline

end IconConstraints
