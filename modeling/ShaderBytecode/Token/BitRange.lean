set_option autoImplicit false

/-! # Bit ranges of a 32-bit token

Every field of a token is a contiguous run of bits. A `BitRange` names such a run by its lowest and
highest bit and carries the proof that both lie inside the word, so reading and writing a field can
neither fail nor shift by 32 or more. Bounds that arrive at run time go through `BitRange.ofBounds`,
which refuses a bad pair.

Bad bounds are a mistake of the caller, and `getBits` and `setBits` assert that they get none. Only
a debug build checks the assertion: there a bad pair stops the program, where a release build goes
on to the refusal and returns it. So the build is a parameter of both, and `BitFault` keeps the two
outcomes apart. -/

namespace ShaderBytecode

/-- The bits `lo` to `hi`, both included, of a 32-bit word; bit 0 is the least significant. -/
structure BitRange where
  lo : Nat
  hi : Nat
  lo_le_hi : lo ≤ hi := by decide
  hi_le : hi ≤ 31 := by decide
  deriving DecidableEq

/-- A pair of bounds that names no bit range. -/
structure BadBitRange where
  lo : Nat
  hi : Nat
  deriving DecidableEq, Repr

def BadBitRange.message (bad : BadBitRange) : String :=
  s!"invalid bit range [{bad.lo}, {bad.hi}] (need 0 <= lo <= hi <= 31)"

/-- How the program is built, which decides whether it checks its debug assertions. -/
inductive Build
  | debug
  | release
  deriving DecidableEq, Repr

/-- How an access with run-time bounds fails: it returns an error, or it stops the program with the
    message of an assertion. -/
inductive BitFault
  | badRange (bad : BadBitRange)
  | stopped (message : String)
  deriving DecidableEq, Repr

/-- The assertion that `holds` is true, which a release build leaves out. -/
def Build.debugAssert (build : Build) (holds : Bool) (message : String) : Except BitFault Unit :=
  match build, holds with
  | .debug, false => .error (.stopped message)
  | .debug, true | .release, _ => .ok ()

@[simp] theorem Build.debugAssert_true (build : Build) (message : String) :
    build.debugAssert true message = .ok () := by
  cases build <;> rfl

@[simp] theorem Build.debugAssert_release (holds : Bool) (message : String) :
    Build.release.debugAssert holds message = .ok () := rfl

@[simp] theorem Build.debugAssert_debug_false (message : String) :
    Build.debug.debugAssert false message = .error (.stopped message) := rfl

namespace BitRange

/-- The range with the given bounds, if there is one. -/
def ofBounds (lo hi : Nat) : Except BadBitRange BitRange :=
  if h : lo ≤ hi ∧ hi ≤ 31 then .ok ⟨lo, hi, h.1, h.2⟩ else .error ⟨lo, hi⟩

theorem ofBounds_eq_ok_iff {lo hi : Nat} {r : BitRange} :
    ofBounds lo hi = .ok r ↔ r.lo = lo ∧ r.hi = hi := by
  unfold ofBounds
  split
  · next h =>
      obtain ⟨rlo, rhi, _, _⟩ := r
      simp [eq_comm]
  · next h =>
      refine ⟨fun hr => by simp at hr, fun ⟨hlo, hhi⟩ => absurd ?_ h⟩
      exact ⟨hlo ▸ hhi ▸ r.lo_le_hi, hhi ▸ r.hi_le⟩

/-- The range that holds one bit only. -/
def bit (n : Nat) (h : n ≤ 31 := by decide) : BitRange := ⟨n, n, Nat.le_refl n, h⟩

/-- How many bits the range covers. -/
def width (r : BitRange) : Nat := r.hi - r.lo + 1

theorem width_pos (r : BitRange) : 0 < r.width := Nat.succ_pos _

theorem width_le (r : BitRange) : r.width ≤ 32 := by
  have := r.hi_le
  unfold width
  omega

theorem lo_add_width (r : BitRange) : r.lo + r.width = r.hi + 1 := by
  have := r.lo_le_hi
  unfold width
  omega

/-- As many ones as the range is wide, at the low end of the word. It is also the largest value the
    range can hold. -/
def valueMask (r : BitRange) : UInt32 := 0xFFFFFFFF >>> UInt32.ofNat (32 - r.width)

/-- Ones exactly at the bits of the range. -/
def fieldMask (r : BitRange) : UInt32 := r.valueMask <<< UInt32.ofNat r.lo

/-- The field's value in `word`. -/
def get (r : BitRange) (word : UInt32) : UInt32 := (word >>> UInt32.ofNat r.lo) &&& r.valueMask

/-- The word `word` with the field replaced by the low bits of `value`. -/
def set (r : BitRange) (word value : UInt32) : UInt32 :=
  (word &&& ~~~r.fieldMask) ||| ((value &&& r.valueMask) <<< UInt32.ofNat r.lo)

/-- A word that is zero outside the field. -/
def place (r : BitRange) (value : UInt32) : UInt32 := r.set 0 value

/-- Whether `value` can be stored in the field without losing a bit. -/
def fits (r : BitRange) (value : UInt32) : Bool := value ≤ r.valueMask

/-- Write several fields one after another. -/
def fill (word : UInt32) (fields : List (BitRange × UInt32)) : UInt32 :=
  fields.foldl (fun w field => field.1.set w field.2) word

/-- The range with the given bounds. A debug build stops at bad ones before they can be refused. -/
def assertedRange (build : Build) (lo hi : Nat) : Except BitFault BitRange := do
  let range := ofBounds lo hi
  build.debugAssert range.isOk s!"invalid bit range [{lo}, {hi}]"
  range.mapError .badRange

/-- Read the field with run-time bounds `lo` and `hi`. Bad bounds stop a debug build at the
    assertion and are returned as an error by a release build. -/
def getBits (build : Build) (word : UInt32) (lo hi : Nat) : Except BitFault UInt32 :=
  return (← assertedRange build lo hi).get word

/-- Write the field with run-time bounds `lo` and `hi`. Bad bounds stop a debug build at the
    assertion and are returned as an error by a release build. -/
def setBits (build : Build) (word : UInt32) (lo hi : Nat) (value : UInt32) :
    Except BitFault UInt32 :=
  return (← assertedRange build lo hi).set word value

/-- Write the field with run-time bounds `lo` and `hi` in place: the word is the state. It is
    written last, so neither an error nor a failed assertion has changed it. -/
def assignBits (build : Build) (lo hi : Nat) (value : UInt32) : EStateM BitFault UInt32 Unit := do
  let written ← MonadExcept.ofExcept (setBits build (← MonadState.get) lo hi value)
  MonadStateOf.set written

end BitRange

end ShaderBytecode
