import ShaderBytecode.Digest.Compression
import ShaderBytecode.Proofs.Bytes.Words
import ShaderBytecode.Proofs.Token.BitRange

set_option autoImplicit false

/-! # The compression function is that of MD5

MD5 works a block into four registers by 64 operations, written out in four rounds of sixteen. Every
operation changes one register; which one, and which part the other three play, is written with the
operation and goes around: ABCD, DABC, CDAB, BCDA. The compression function does the same with the
same step every time and moves the words instead. So after every operation its state is that of the
registers, seen in the roles of the operation that comes next (`MD5.view`).

The constants are those of `Digest.constants`. -/

namespace ShaderBytecode

namespace MD5

/-! ## Words -/

def F (x y z : UInt32) : UInt32 := (x &&& y) ||| (~~~x &&& z)

def G (x y z : UInt32) : UInt32 := (x &&& z) ||| (y &&& ~~~z)

def H (x y z : UInt32) : UInt32 := x ^^^ y ^^^ z

def I (x y z : UInt32) : UInt32 := y ^^^ (x ||| ~~~z)

/-- The constant number `i`, counted from one. -/
def T (i : Nat) : UInt32 := Digest.constants.getD (i - 1) 0

/-- Word number `k` of a block, the byte that counts least coming first. -/
def X (block : Vector UInt8 64) (k : Fin 16) : UInt32 :=
  UInt32.ofNat (block[4 * k.val].toNat + 256 * block[4 * k.val + 1].toNat
    + 65536 * block[4 * k.val + 2].toNat + 16777216 * block[4 * k.val + 3].toNat)

/-- The word turned to the left by `s` bits: what leaves at the top comes in at the bottom. -/
def rotate (x : UInt32) (s : Nat) : UInt32 := UInt32.ofBitVec (x.toBitVec.rotateLeft s)

/-! ## Operations -/

inductive Register where
  | A | B | C | D
  deriving DecidableEq, Repr

/-- What a register holds. -/
def read (t : DigestState) : Register → UInt32
  | .A => t.a
  | .B => t.b
  | .C => t.c
  | .D => t.d

/-- Put a word into a register. -/
def write (t : DigestState) (value : UInt32) : Register → DigestState
  | .A => { t with a := value }
  | .B => { t with b := value }
  | .C => { t with c := value }
  | .D => { t with d := value }

theorem read_write_self (t : DigestState) (value : UInt32) (r : Register) :
    read (write t value r) r = value := by
  cases r <;> rfl

theorem read_write_of_ne {r r' : Register} (h : r' ≠ r) (t : DigestState) (value : UInt32) :
    read (write t value r) r' = read t r' := by
  cases r <;> cases r' <;> first | rfl | exact absurd rfl h

/-- Which registers an operation calls `a`, `b`, `c` and `d`. -/
structure Roles where
  a : Register
  b : Register
  c : Register
  d : Register
  deriving DecidableEq, Repr

def ABCD : Roles := ⟨.A, .B, .C, .D⟩
def DABC : Roles := ⟨.D, .A, .B, .C⟩
def CDAB : Roles := ⟨.C, .D, .A, .B⟩
def BCDA : Roles := ⟨.B, .C, .D, .A⟩

/-- One operation: its roles, the word of the block, the rotation and the constant. -/
structure Operation where
  roles : Roles
  k : Fin 16
  s : Nat
  i : Nat
  deriving DecidableEq, Repr

/-- Set `a` to `b + ((a + f(b, c, d) + X[k] + T[i]) <<< s)`, the arrow being a rotation. -/
def perform (f : UInt32 → UInt32 → UInt32 → UInt32) (words : Fin 16 → UInt32) (t : DigestState)
    (op : Operation) : DigestState :=
  let a := read t op.roles.a
  let b := read t op.roles.b
  let c := read t op.roles.c
  let d := read t op.roles.d
  write t (b + rotate (a + f b c d + words op.k + T op.i) op.s) op.roles.a

def round1 : List Operation :=
  [⟨ABCD, 0, 7, 1⟩, ⟨DABC, 1, 12, 2⟩, ⟨CDAB, 2, 17, 3⟩, ⟨BCDA, 3, 22, 4⟩,
    ⟨ABCD, 4, 7, 5⟩, ⟨DABC, 5, 12, 6⟩, ⟨CDAB, 6, 17, 7⟩, ⟨BCDA, 7, 22, 8⟩,
    ⟨ABCD, 8, 7, 9⟩, ⟨DABC, 9, 12, 10⟩, ⟨CDAB, 10, 17, 11⟩, ⟨BCDA, 11, 22, 12⟩,
    ⟨ABCD, 12, 7, 13⟩, ⟨DABC, 13, 12, 14⟩, ⟨CDAB, 14, 17, 15⟩, ⟨BCDA, 15, 22, 16⟩]

def round2 : List Operation :=
  [⟨ABCD, 1, 5, 17⟩, ⟨DABC, 6, 9, 18⟩, ⟨CDAB, 11, 14, 19⟩, ⟨BCDA, 0, 20, 20⟩,
    ⟨ABCD, 5, 5, 21⟩, ⟨DABC, 10, 9, 22⟩, ⟨CDAB, 15, 14, 23⟩, ⟨BCDA, 4, 20, 24⟩,
    ⟨ABCD, 9, 5, 25⟩, ⟨DABC, 14, 9, 26⟩, ⟨CDAB, 3, 14, 27⟩, ⟨BCDA, 8, 20, 28⟩,
    ⟨ABCD, 13, 5, 29⟩, ⟨DABC, 2, 9, 30⟩, ⟨CDAB, 7, 14, 31⟩, ⟨BCDA, 12, 20, 32⟩]

def round3 : List Operation :=
  [⟨ABCD, 5, 4, 33⟩, ⟨DABC, 8, 11, 34⟩, ⟨CDAB, 11, 16, 35⟩, ⟨BCDA, 14, 23, 36⟩,
    ⟨ABCD, 1, 4, 37⟩, ⟨DABC, 4, 11, 38⟩, ⟨CDAB, 7, 16, 39⟩, ⟨BCDA, 10, 23, 40⟩,
    ⟨ABCD, 13, 4, 41⟩, ⟨DABC, 0, 11, 42⟩, ⟨CDAB, 3, 16, 43⟩, ⟨BCDA, 6, 23, 44⟩,
    ⟨ABCD, 9, 4, 45⟩, ⟨DABC, 12, 11, 46⟩, ⟨CDAB, 15, 16, 47⟩, ⟨BCDA, 2, 23, 48⟩]

def round4 : List Operation :=
  [⟨ABCD, 0, 6, 49⟩, ⟨DABC, 7, 10, 50⟩, ⟨CDAB, 14, 15, 51⟩, ⟨BCDA, 5, 21, 52⟩,
    ⟨ABCD, 12, 6, 53⟩, ⟨DABC, 3, 10, 54⟩, ⟨CDAB, 10, 15, 55⟩, ⟨BCDA, 1, 21, 56⟩,
    ⟨ABCD, 8, 6, 57⟩, ⟨DABC, 15, 10, 58⟩, ⟨CDAB, 6, 15, 59⟩, ⟨BCDA, 13, 21, 60⟩,
    ⟨ABCD, 4, 6, 61⟩, ⟨DABC, 11, 10, 62⟩, ⟨CDAB, 2, 15, 63⟩, ⟨BCDA, 9, 21, 64⟩]

/-- Work a block into the registers: all four rounds, and then every register is increased by what
    it held before. -/
def blockStep (s : DigestState) (block : Vector UInt8 64) : DigestState :=
  let t := round1.foldl (perform F (X block)) s
  let t := round2.foldl (perform G (X block)) t
  let t := round3.foldl (perform H (X block)) t
  let t := round4.foldl (perform I (X block)) t
  ⟨t.a + s.a, t.b + s.b, t.c + s.c, t.d + s.d⟩

/-! ## The same words -/

theorem choose_eq_F (b c d : UInt32) : Digest.choose b c d = F b c d := by
  apply eq_of_bitAt
  intro i hi
  simp only [Digest.choose, F, bitAt_and, bitAt_or, bitAt_xor, bitAt_not _ hi]
  cases bitAt b i <;> simp

theorem chooseByLast_eq_G (b c d : UInt32) : Digest.chooseByLast b c d = G b c d := by
  apply eq_of_bitAt
  intro i hi
  simp only [Digest.chooseByLast, Digest.choose, G, bitAt_and, bitAt_or, bitAt_xor, bitAt_not _ hi]
  cases bitAt d i <;> simp

theorem parity_eq_H (b c d : UInt32) : Digest.parity b c d = H b c d := rfl

theorem orNot_eq_I (b c d : UInt32) : Digest.orNot b c d = I b c d := rfl

/-- Two shifts that meet turn the word, if neither is by the whole width. -/
theorem rotateLeft_eq_rotate {s : Nat} (hpos : 0 < s) (hlt : s < 32) (x : UInt32) :
    Digest.rotateLeft x (UInt32.ofNat s) = rotate x s := by
  have hback : 32 - UInt32.ofNat s = UInt32.ofNat (32 - s) :=
    (UInt32.ofNat_sub (Nat.le_of_lt hlt)).symm
  have hmod : (32 - s) % 32 = 32 - s := Nat.mod_eq_of_lt (by omega)
  apply UInt32.toBitVec_inj.1
  rw [Digest.rotateLeft, rotate, hback]
  simp [UInt32.toBitVec_shiftLeft, UInt32.toBitVec_shiftRight, BitVec.rotateLeft_def,
    Nat.mod_eq_of_lt hlt, hmod]

theorem getD_toWords (block : Vector UInt8 64) (k : Fin 16) :
    (LittleEndian.toWords block.toList).getD k 0 = X block k := by
  have hk := k.isLt
  have hword : (LittleEndian.toWords block.toList)[k.val]?
      = some (UInt32.ofNat (LittleEndian.wordAt block.toList (4 * k.val))) := by
    apply LittleEndian.getElem?_toWords
    rw [Vector.length_toList]
    omega
  have hplace : 4 * k.val + 3 < block.toList.length := by
    rw [Vector.length_toList]
    omega
  rw [List.getD_eq_getElem?_getD, hword, Option.getD_some, LittleEndian.wordAt_eq_sum hplace]
  rfl

/-! ## The same steps -/

/-- The step of the compression function that does what an operation does. -/
def toStep (mix : UInt32 → UInt32 → UInt32 → UInt32) (op : Operation) : Digest.Step :=
  ⟨mix, op.k, T op.i, UInt32.ofNat op.s⟩

/-- The words and rotations that the compression function computes are those written out. -/
theorem steps_eq_rounds : Digest.steps = round1.map (toStep Digest.choose)
    ++ round2.map (toStep Digest.chooseByLast) ++ round3.map (toStep Digest.parity)
    ++ round4.map (toStep Digest.orNot) := rfl

/-- The registers in the order of the roles that they play. -/
def view (roles : Roles) (t : DigestState) : DigestState :=
  ⟨read t roles.a, read t roles.b, read t roles.c, read t roles.d⟩

namespace Roles

/-- The roles of the operation that comes next. -/
def next (roles : Roles) : Roles := ⟨roles.d, roles.a, roles.b, roles.c⟩

/-- No register plays two parts. -/
def Distinct (roles : Roles) : Prop := [roles.a, roles.b, roles.c, roles.d].Nodup

instance (roles : Roles) : Decidable roles.Distinct :=
  inferInstanceAs (Decidable [roles.a, roles.b, roles.c, roles.d].Nodup)

theorem Distinct.next {roles : Roles} (h : roles.Distinct) : roles.next.Distinct :=
  (List.perm_append_singleton roles.d [roles.a, roles.b, roles.c]).nodup_iff.1 h

end Roles

/-- The roles of the operations go around from some roles on to others, and every rotation is by
    less than the width of a word. -/
def Rotates : Roles → List Operation → Roles → Prop
  | roles, [], last => roles = last
  | roles, op :: ops, last =>
      op.roles = roles ∧ (0 < op.s ∧ op.s < 32) ∧ Rotates roles.next ops last

instance decidableRotates : (roles : Roles) → (ops : List Operation) → (last : Roles) →
    Decidable (Rotates roles ops last)
  | roles, [], last => inferInstanceAs (Decidable (roles = last))
  | roles, op :: ops, last =>
      have := decidableRotates roles.next ops last
      inferInstanceAs (Decidable (op.roles = roles ∧ (0 < op.s ∧ op.s < 32)
        ∧ Rotates roles.next ops last))

section

variable {mix f : UInt32 → UInt32 → UInt32 → UInt32} (hmix : ∀ b c d, mix b c d = f b c d)
  (block : Vector UInt8 64)

include hmix

/-- A step moves the words to where the next operation expects them. -/
theorem apply_view {op : Operation} (hroles : op.roles.Distinct) (hpos : 0 < op.s) (hlt : op.s < 32)
    (t : DigestState) :
    (view op.roles t).apply (LittleEndian.toWords block.toList) (toStep mix op)
      = view op.roles.next (perform f (X block) t op) := by
  have hnodup := (List.nodup_cons.1 hroles).1
  simp only [List.mem_cons, List.not_mem_nil, or_false, not_or] at hnodup
  obtain ⟨hab, hac, had⟩ := hnodup
  -- The compression function adds the constant before the word of the block.
  have hsum : ∀ a mixed constant word : UInt32,
      a + mixed + constant + word = a + mixed + word + constant := by
    intro a mixed constant word
    rw [UInt32.add_assoc, UInt32.add_comm constant, ← UInt32.add_assoc]
  -- Only the register in the role of `a` is written; the other three are read as before.
  simp only [DigestState.apply, toStep, view, Roles.next, perform, read_write_self,
    read_write_of_ne (Ne.symm hab), read_write_of_ne (Ne.symm hac), read_write_of_ne (Ne.symm had),
    hmix, getD_toWords, rotateLeft_eq_rotate hpos hlt, hsum]

/-- Steps whose roles go around follow the operations. -/
theorem foldl_apply_view {roles last : Roles} {ops : List Operation}
    (hops : Rotates roles ops last) (hroles : roles.Distinct) (t : DigestState) :
    (ops.map (toStep mix)).foldl (DigestState.apply (LittleEndian.toWords block.toList))
        (view roles t)
      = view last (ops.foldl (perform f (X block)) t) := by
  induction ops generalizing roles t with
  | nil =>
      obtain rfl : roles = last := hops
      rfl
  | cons op ops ih =>
      obtain ⟨rfl, ⟨hpos, hlt⟩, hrest⟩ := hops
      rw [List.map_cons, List.foldl_cons, List.foldl_cons, apply_view hmix block hroles hpos hlt]
      exact ih hrest hroles.next _

/-- A round leaves every word in its place. -/
theorem foldl_apply_round {ops : List Operation} (hops : Rotates ABCD ops ABCD) (t : DigestState) :
    (ops.map (toStep mix)).foldl (DigestState.apply (LittleEndian.toWords block.toList)) t
      = ops.foldl (perform f (X block)) t :=
  foldl_apply_view hmix block hops (by decide) t

end

theorem add_eq (s t : DigestState) : s.add t = ⟨t.a + s.a, t.b + s.b, t.c + s.c, t.d + s.d⟩ := by
  simp only [DigestState.add, UInt32.add_comm]

/-- **Compressing a block is the block step of MD5**, for every state and every block. -/
theorem compress_eq_blockStep (s : DigestState) (block : Vector UInt8 64) :
    s.compress block.toList = blockStep s block := by
  have hround1 : Rotates ABCD round1 ABCD := by decide
  have hround2 : Rotates ABCD round2 ABCD := by decide
  have hround3 : Rotates ABCD round3 ABCD := by decide
  have hround4 : Rotates ABCD round4 ABCD := by decide
  rw [DigestState.compress, steps_eq_rounds, List.foldl_append, List.foldl_append,
    List.foldl_append, foldl_apply_round choose_eq_F block hround1,
    foldl_apply_round chooseByLast_eq_G block hround2, foldl_apply_round parity_eq_H block hround3,
    foldl_apply_round orNot_eq_I block hround4, add_eq]
  rfl

/-- The only block of the empty message: the marker, and a length of zero. -/
example : blockStep .initial ((Vector.replicate 64 0).set 0 0x80)
    = ⟨0xd98c1dd4, 0x04b2008f, 0x980980e9, 0x7e42f8ec⟩ := by
  decide +kernel

end MD5

end ShaderBytecode
