import Mathlib.Algebra.Group.Nat.Defs
import Mathlib.Data.List.Basic
import ShaderBytecode.Digest.Basic
import ShaderBytecode.Proofs.Bytes.Reading

set_option autoImplicit false

/-! # The blocks of a digest

The digest works a sequence of blocks into a state, one after another. The sequence is written down
here as concatenations (`Digest.blocks`): the whole blocks of the input, then one block or two with
what is left, the marker and the length. So the fields of the last blocks stand side by side and
none overwrites another.

The last word of the last block tells the length of the input, up to the point where it wraps
around. With the length it is known where the last blocks begin and how they are laid out, so
different inputs have different blocks (`Digest.blocks_inj`). -/

namespace ShaderBytecode

open LittleEndian (encode decode)

/-- A state can be told from its bytes. -/
theorem DigestState.toBytes_inj {s t : DigestState} (h : s.toBytes = t.toBytes) : s = t := by
  have hwords := congrArg LittleEndian.toWords h
  simp only [toBytes, LittleEndian.toWords_ofWords, List.cons.injEq, and_true] at hwords
  obtain ⟨ha, hb, hc, hd⟩ := hwords
  cases s
  cases t
  simp_all

namespace Digest

/-! ## The sequence -/

/-- The first `count` blocks of the data, each of 64 bytes. -/
def wholeBlocks (count : Nat) (data : List UInt8) : List (List UInt8) :=
  (List.range count).map fun index => (data.drop (64 * index)).take 64

/-- What is left behind the whole blocks. -/
def remainder (data : List UInt8) : List UInt8 := data.drop (64 * (data.length / 64))

/-- The blocks after the whole ones, for an input of the given length of which `tail` is left. -/
def lastBlocks (length : Nat) (tail : List UInt8) : List (List UInt8) :=
  let bits := encode 4 (8 * length % 2 ^ 32)
  let closing := encode 4 ((2 * length + 1) % 2 ^ 32)
  if tail.length < 56 then
    [bits ++ tail ++ [0x80] ++ List.replicate (55 - tail.length) 0 ++ closing]
  else
    [tail ++ [0x80] ++ List.replicate (63 - tail.length) 0,
      bits ++ List.replicate 56 0 ++ closing]

/-- The blocks that the digest of the data is made of. -/
def blocks (data : List UInt8) : List (List UInt8) :=
  wholeBlocks (data.length / 64) data ++ lastBlocks data.length (remainder data)

theorem length_remainder (data : List UInt8) : (remainder data).length = data.length % 64 := by
  rw [remainder, List.length_drop]
  omega

theorem length_remainder_lt (data : List UInt8) : (remainder data).length < 64 := by
  rw [length_remainder]
  exact Nat.mod_lt _ (by decide)

theorem length_of_mem_wholeBlocks {count : Nat} {data block : List UInt8}
    (hcount : 64 * count ≤ data.length) (h : block ∈ wholeBlocks count data) :
    block.length = 64 := by
  simp only [wholeBlocks, List.mem_map, List.mem_range] at h
  obtain ⟨index, hindex, rfl⟩ := h
  rw [List.length_take, List.length_drop]
  omega

theorem length_of_mem_lastBlocks {length : Nat} {tail block : List UInt8} (htail : tail.length < 64)
    (h : block ∈ lastBlocks length tail) : block.length = 64 := by
  unfold lastBlocks at h
  split at h
  · next hshort =>
      simp only [List.mem_singleton] at h
      subst h
      simp only [List.length_append, LittleEndian.length_encode, List.length_singleton,
        List.length_replicate]
      omega
  · next hlong =>
      simp only [List.mem_cons, List.not_mem_nil, or_false] at h
      rcases h with rfl | rfl
      · simp only [List.length_append, List.length_singleton, List.length_replicate]
        omega
      · simp

/-- Every block has 64 bytes. -/
theorem length_of_mem_blocks {data block : List UInt8} (h : block ∈ blocks data) :
    block.length = 64 := by
  rcases List.mem_append.1 h with h | h
  · exact length_of_mem_wholeBlocks (by omega) h
  · exact length_of_mem_lastBlocks (length_remainder_lt data) h

/-! ## The digest works in the blocks -/

theorem absorb_succ (count : Nat) (data : List UInt8) (s : DigestState) :
    absorb (count + 1) data s = absorb count (data.drop 64) (s.compress (data.take 64)) := by
  -- As an equation between functions, since to compare a state with a compressed one would be to
  -- compute the compression.
  have hstep : absorb (count + 1)
      = fun data s => absorb count (data.drop 64) (s.compress (data.take 64)) := rfl
  exact congrFun (congrFun hstep data) s

theorem absorb_eq_foldl (count : Nat) (data : List UInt8) (s : DigestState) :
    absorb count data s = (wholeBlocks count data).foldl DigestState.compress s := by
  induction count generalizing data s with
  | zero => rfl
  | succ count ih =>
      -- Behind the first block the others lie one block further on.
      have hshift : wholeBlocks (count + 1) data
          = data.take 64 :: wholeBlocks count (data.drop 64) := by
        simp only [wholeBlocks, List.range_succ_eq_map, List.map_cons, List.map_map, Nat.mul_zero,
          List.drop_zero, List.cons.injEq, true_and]
        refine List.map_congr_left fun index _ => ?_
        simp only [Function.comp_apply, List.drop_drop]
        congr 2
        omega
      rw [absorb_succ, ih, hshift, List.foldl_cons]

/-- Bytes that are put where others stand replace them and nothing else. -/
theorem put_append (front : List UInt8) {old bytes : List UInt8} (back : List UInt8)
    (h : old.length = bytes.length) :
    put front.length bytes (front ++ old ++ back) = front ++ bytes ++ back := by
  have hback : (front ++ old ++ back).drop (front.length + bytes.length) = back := by
    rw [← h, ← List.length_append, List.drop_left]
  rw [put, hback, List.append_assoc front old back, List.take_left]

theorem lengthWords_emptyBlock (length : Nat) : lengthWords length emptyBlock
    = encode 4 (8 * length) ++ List.replicate 56 0 ++ encode 4 (2 * length + 1) := by
  have hempty : emptyBlock = [] ++ List.replicate 4 0 ++ List.replicate 60 0 := rfl
  have hzeros : List.replicate 60 (0 : UInt8) = List.replicate 56 0 ++ List.replicate 4 0 := rfl
  have hfirst : put 0 (encode 4 (8 * length)) emptyBlock
      = encode 4 (8 * length) ++ List.replicate 56 0 ++ List.replicate 4 0 ++ [] := by
    have hfour : (List.replicate 4 (0 : UInt8)).length = (encode 4 (8 * length)).length := by simp
    have hput := put_append [] (List.replicate 60 0) hfour
    rw [List.length_nil, ← hempty] at hput
    rw [hput, hzeros]
    simp
  have hfour : (List.replicate 4 (0 : UInt8)).length = (encode 4 (2 * length + 1)).length := by simp
  have hput := put_append (encode 4 (8 * length) ++ List.replicate 56 0) [] hfour
  have hplace : (encode 4 (8 * length) ++ List.replicate 56 0).length = 60 := by simp
  rw [hplace, ← hfirst, List.append_nil] at hput
  exact hput

/-- The remaining bytes and the marker replace zeros, if there are enough of them. -/
theorem putTail_append (front : List UInt8) {tail : List UInt8} (back : List UInt8) {zeros : Nat}
    (h : tail.length < zeros) :
    putTail front.length tail (front ++ List.replicate zeros 0 ++ back)
      = front ++ tail ++ [0x80] ++ List.replicate (zeros - 1 - tail.length) 0 ++ back := by
  have hzeros : List.replicate zeros (0 : UInt8) = List.replicate tail.length 0
      ++ ([0] ++ List.replicate (zeros - 1 - tail.length) 0) := by
    rw [← List.replicate_one, List.replicate_append_replicate, List.replicate_append_replicate]
    congr 1
    omega
  have htail : put front.length tail (front ++ List.replicate zeros 0 ++ back)
      = front ++ tail ++ ([0] ++ (List.replicate (zeros - 1 - tail.length) 0 ++ back)) := by
    have hsame : (List.replicate tail.length (0 : UInt8)).length = tail.length := by simp
    rw [← put_append front _ hsame, hzeros]
    simp only [List.append_assoc]
  have hone : [(0 : UInt8)].length = [(0x80 : UInt8)].length := rfl
  have hmarker := put_append (front ++ tail) (List.replicate (zeros - 1 - tail.length) 0 ++ back)
    hone
  rw [List.length_append] at hmarker
  rw [putTail, htail, ← List.append_assoc _ [0], hmarker, ← List.append_assoc]

theorem finish_eq_foldl {length : Nat} {tail : List UInt8} (h : tail.length < 64)
    (s : DigestState) :
    finish length tail s = (lastBlocks length tail).foldl DigestState.compress s := by
  have hbits := LittleEndian.encode_mod 4 (8 * length)
  have hclosing := LittleEndian.encode_mod 4 (2 * length + 1)
  change encode 4 (_ % 2 ^ 32) = _ at hbits hclosing
  unfold finish lastBlocks
  rw [hbits, hclosing, lengthWords_emptyBlock]
  by_cases hshort : tail.length < 56
  · have hput := putTail_append (encode 4 (8 * length)) (encode 4 (2 * length + 1)) hshort
    rw [LittleEndian.length_encode] at hput
    rw [tailLimit, if_pos hshort, if_pos hshort, hput]
    simp
  · have hput := putTail_append [] [] h
    simp only [List.length_nil, List.nil_append, List.append_nil] at hput
    rw [tailLimit, if_neg hshort, if_neg hshort, emptyBlock, blockLength, hput]
    simp

theorem digest_eq_foldl (data : List UInt8) :
    digest data = ((blocks data).foldl DigestState.compress .initial).toBytes := by
  have hremainder : data.drop (data.length / blockLength * blockLength) = remainder data := by
    rw [remainder, blockLength, Nat.mul_comm]
  rw [blocks, List.foldl_append, ← absorb_eq_foldl, ← finish_eq_foldl (length_remainder_lt data),
    ← hremainder]
  rfl

/-! ## Different inputs have different blocks -/

/-- The data in front of a place is made of the blocks before it. -/
theorem flatten_wholeBlocks (count : Nat) (data : List UInt8) :
    (wholeBlocks count data).flatten = data.take (64 * count) := by
  induction count with
  | zero => simp [wholeBlocks]
  | succ count ih =>
      have hlast : wholeBlocks (count + 1) data
          = wholeBlocks count data ++ [(data.drop (64 * count)).take 64] := by
        simp only [wholeBlocks, List.range_succ, List.map_append, List.map_cons, List.map_nil]
      rw [hlast, List.flatten_concat, ih, Nat.mul_succ, List.take_add]

theorem flatten_wholeBlocks_append_remainder (data : List UInt8) :
    (wholeBlocks (data.length / 64) data).flatten ++ remainder data = data := by
  rw [flatten_wholeBlocks, remainder, List.take_append_drop]

/-- The closing word is the last of the last block. -/
theorem drop_getLast?_blocks (data : List UInt8) :
    (blocks data).getLast?.map (·.drop 60) = some (encode 4 ((2 * data.length + 1) % 2 ^ 32)) := by
  have hlength := length_remainder_lt data
  unfold blocks lastBlocks
  split
  · next hshort =>
      rw [List.getLast?_concat, Option.map_some, List.drop_left']
      simp only [List.length_append, LittleEndian.length_encode, List.length_singleton,
        List.length_replicate]
      omega
  · rw [List.getLast?_append_cons, List.getLast?_cons_cons, List.getLast?_singleton,
      Option.map_some, List.drop_left']
    simp

theorem length_eq_of_blocks_eq {data other : List UInt8} (hdata : data.length < 2 ^ 31)
    (hother : other.length < 2 ^ 31) (h : blocks data = blocks other) :
    data.length = other.length := by
  have hclosing := drop_getLast?_blocks data
  rw [h, drop_getLast?_blocks, Option.some.injEq] at hclosing
  have hword := congrArg decode hclosing
  rw [LittleEndian.decode_encode, LittleEndian.decode_encode] at hword
  change _ % 2 ^ 32 % 2 ^ 32 = _ % 2 ^ 32 % 2 ^ 32 at hword
  omega

/-- For remaining bytes of one length the last blocks have one layout. -/
theorem tail_eq_of_lastBlocks_eq {length : Nat} {tail other : List UInt8}
    (hlength : tail.length = other.length) (h : lastBlocks length tail = lastBlocks length other) :
    tail = other := by
  unfold lastBlocks at h
  rw [← hlength] at h
  split at h
  · simp only [List.cons.injEq, and_true, List.append_assoc] at h
    exact (List.append_inj (List.append_cancel_left h) hlength).1
  · simp only [List.cons.injEq, and_true, List.append_assoc] at h
    exact (List.append_inj h hlength).1

theorem blocks_inj {data other : List UInt8} (hdata : data.length < 2 ^ 31)
    (hother : other.length < 2 ^ 31) (h : blocks data = blocks other) : data = other := by
  have hlength := length_eq_of_blocks_eq hdata hother h
  unfold blocks at h
  rw [← hlength] at h
  obtain ⟨hwhole, hlast⟩ := List.append_inj h (by simp [wholeBlocks])
  have htail : remainder data = remainder other := by
    refine tail_eq_of_lastBlocks_eq ?_ hlast
    rw [length_remainder, length_remainder, hlength]
  rw [← flatten_wholeBlocks_append_remainder data, ← flatten_wholeBlocks_append_remainder other,
    hwhole, htail, hlength]

/-- **The digest folds the compression over the blocks of its input**, each of exactly 64 bytes, and
    up to a length of 2³¹ bytes no two inputs have the same blocks. -/
theorem digest_folds_distinct_blocks (data other : List UInt8) :
    digest data = ((blocks data).foldl DigestState.compress .initial).toBytes
      ∧ (∀ block ∈ blocks data, block.length = 64)
      ∧ (data.length < 2 ^ 31 → other.length < 2 ^ 31 → blocks data = blocks other →
        data = other) :=
  ⟨digest_eq_foldl data, fun _ => length_of_mem_blocks, blocks_inj⟩

/-- The longest remainder that shares a block with the length, and the shortest that does not. -/
theorem digest_folds_distinct_blocks_limit :
    let data : List UInt8 := List.replicate 55 0
    let other : List UInt8 := List.replicate 56 0
    data.length < 2 ^ 31 ∧ other.length < 2 ^ 31 ∧ data ≠ other ∧ blocks data ≠ blocks other := by
  intro data other
  have hdata : data.length < 2 ^ 31 := by decide
  have hother : other.length < 2 ^ 31 := by decide
  have hne : data ≠ other := fun h => absurd (congrArg List.length h) (by decide)
  exact ⟨hdata, hother, hne, mt ((digest_folds_distinct_blocks data other).2.2 hdata hother) hne⟩

end Digest

end ShaderBytecode
