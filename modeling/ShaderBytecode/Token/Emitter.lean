import ShaderBytecode.EmitError

set_option autoImplicit false

/-! # Writing tokens to a buffer

An `Emitter` appends to a token buffer. What it appends is computed before the buffer is touched, so
an emitter that fails leaves the buffer as it was. -/

namespace ShaderBytecode

/-- A step that appends tokens to a buffer. -/
abbrev Emitter : Type → Type := EStateM EmitError (List UInt32)

namespace Emitter

/-- Append the given tokens, or fail and append nothing. -/
def append (tokens : Except EmitError (List UInt32)) : Emitter Unit :=
  match tokens with
  | .ok new => modify (· ++ new)
  | .error e => throw e

theorem run_append (tokens : Except EmitError (List UInt32)) (buffer : List UInt32) :
    (append tokens).run buffer = match tokens with
      | .ok new => .ok () (buffer ++ new)
      | .error e => .error e buffer := by
  cases tokens <;> rfl

/-- A failure leaves the buffer as it was. -/
theorem eq_of_run_append_eq_error {tokens : Except EmitError (List UInt32)}
    {buffer after : List UInt32} {e : EmitError}
    (h : (append tokens).run buffer = .error e after) : after = buffer := by
  cases tokens with
  | ok new => cases h
  | error e' =>
      cases h
      rfl

end Emitter

end ShaderBytecode
