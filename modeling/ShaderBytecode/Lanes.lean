set_option autoImplicit false

/-! # Four lanes

Vector registers have the four components `x`, `y`, `z` and `w`. `Lanes` holds one value for each,
and `laneName` is the letter a component has in assembly text. -/

namespace ShaderBytecode

/-- One value for each component of a vector register. -/
structure Lanes (α : Type) where
  x : α
  y : α
  z : α
  w : α
  deriving DecidableEq, Repr

namespace Lanes

variable {α β : Type}

/-- The same value in every lane. -/
def all (a : α) : Lanes α := ⟨a, a, a, a⟩

def map (f : α → β) (l : Lanes α) : Lanes β := ⟨f l.x, f l.y, f l.z, f l.w⟩

def zip (l : Lanes α) (m : Lanes β) : Lanes (α × β) :=
  ⟨(l.x, m.x), (l.y, m.y), (l.z, m.z), (l.w, m.w)⟩

/-- The lanes in the order `x`, `y`, `z`, `w`. -/
def toList (l : Lanes α) : List α := [l.x, l.y, l.z, l.w]

/-- Apply an action lane by lane, in the order `x`, `y`, `z`, `w`. -/
def mapM {m : Type → Type} [Monad m] (f : α → m β) (l : Lanes α) : m (Lanes β) :=
  return ⟨← f l.x, ← f l.y, ← f l.z, ← f l.w⟩

end Lanes

/-- The letter of component number `n`; `?` for a number that names no component. -/
def laneName (n : UInt8) : Char :=
  match n with
  | 0 => 'x'
  | 1 => 'y'
  | 2 => 'z'
  | 3 => 'w'
  | _ => '?'

end ShaderBytecode
