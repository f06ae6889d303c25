set_option autoImplicit false

/-! # Enumerations with numeric codes

Opcodes, register files, resource shapes and the like are closed lists whose members each have a
fixed number in the token stream. `Coded` ties such a type to its numbers: `code` writes a member,
`Coded.ofCode?` reads one, and the law in the class says that reading inverts writing. -/

namespace ShaderBytecode

/-- A closed list of members, each with its own number. -/
class Coded (α : Type) where
  /-- Every member, in the order of the format's table. -/
  members : List α
  code : α → UInt32
  /-- Looking a member's number up finds that member, so no two members share a number. -/
  find?_code : ∀ a, members.find? (fun b => code b == code a) = some a

namespace Coded

variable {α : Type} [Coded α]

/-- The member with the number `n`, if there is one. -/
def ofCode? (n : UInt32) : Option α := members.find? fun a => code a == n

@[simp] theorem ofCode?_code (a : α) : ofCode? (code a) = some a := find?_code a

theorem code_of_ofCode? {n : UInt32} {a : α} (h : ofCode? n = some a) : code a = n := by
  simpa using List.find?_some h

theorem ofCode?_eq_some_iff {n : UInt32} {a : α} : ofCode? n = some a ↔ code a = n :=
  ⟨code_of_ofCode?, fun h => h ▸ ofCode?_code a⟩

end Coded

end ShaderBytecode
