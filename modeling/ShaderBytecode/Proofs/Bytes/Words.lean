import Mathlib.Algebra.Group.Nat.Defs
import ShaderBytecode.Proofs.Bytes.Reading

set_option autoImplicit false

/-! # Bytes read as words

Bytes are read as words from the front, four at a time. Word number `k` is the number at place `4 * k`,
the words of a front part are the front part of the words, and bytes that divide into words are what
the words are stored as. -/

namespace ShaderBytecode.LittleEndian

/-- The number at a place, written out from its four bytes. -/
theorem wordAt_eq_sum {bytes : List UInt8} {offset : Nat} (h : offset + 3 < bytes.length) :
    wordAt bytes offset = bytes[offset].toNat + 256 * bytes[offset + 1].toNat
      + 65536 * bytes[offset + 2].toNat + 16777216 * bytes[offset + 3].toNat := by
  have hfour : (bytes.drop offset).take 4
      = [bytes[offset], bytes[offset + 1], bytes[offset + 2], bytes[offset + 3]] := by
    rw [List.drop_eq_getElem_cons (by omega), List.drop_eq_getElem_cons (by omega),
      List.drop_eq_getElem_cons (by omega), List.drop_eq_getElem_cons (by omega)]
    rfl
  rw [wordAt, hfour]
  simp only [decode]
  omega

/-- Fewer than four bytes make no word. -/
theorem toWords_of_length_lt {bytes : List UInt8} (h : bytes.length < 4) : toWords bytes = [] := by
  match bytes, h with
  | [], _ | [_], _ | [_, _], _ | [_, _, _], _ => rfl

/-- The first word is the number in the first four bytes. -/
theorem toWords_eq_cons {bytes : List UInt8} (h : 4 ≤ bytes.length) :
    toWords bytes = UInt32.ofNat (wordAt bytes 0) :: toWords (bytes.drop 4) := by
  match bytes, h with
  | _ :: _ :: _ :: _ :: _, _ => rfl

theorem length_toWords (bytes : List UInt8) : (toWords bytes).length = bytes.length / 4 := by
  induction hlen : bytes.length / 4 generalizing bytes with
  | zero =>
      have hshort : bytes.length < 4 := by omega
      rw [toWords_of_length_lt hshort, List.length_nil]
  | succ n ih =>
      have hlong : 4 ≤ bytes.length := by omega
      rw [toWords_eq_cons hlong, List.length_cons, ih]
      rw [List.length_drop]
      omega

/-- Every word is the number at its place. -/
theorem getElem?_toWords {bytes : List UInt8} {k : Nat} (h : 4 * k + 4 ≤ bytes.length) :
    (toWords bytes)[k]? = some (UInt32.ofNat (wordAt bytes (4 * k))) := by
  induction k generalizing bytes with
  | zero =>
      rw [toWords_eq_cons (by omega)]
      rfl
  | succ k ih =>
      have hrest : 4 * k + 4 ≤ (bytes.drop 4).length := by
        rw [List.length_drop]
        omega
      have hplace : 4 * (k + 1) = 4 + 4 * k := by omega
      rw [toWords_eq_cons (by omega), List.getElem?_cons_succ, ih hrest, wordAt_drop, hplace]

/-- The words of the first bytes are the first words. -/
theorem toWords_take (n : Nat) (bytes : List UInt8) :
    toWords (bytes.take (4 * n)) = (toWords bytes).take n := by
  induction n generalizing bytes with
  | zero => rfl
  | succ n ih =>
      rw [Nat.mul_succ]
      match bytes with
      | a :: b :: c :: d :: rest => exact congrArg _ (ih rest)
      | [] | [_] | [_, _] | [_, _, _] => rfl

/-- Four bytes are what the number they stand for is stored as. -/
theorem ofWord_ofNat_decode {bytes : List UInt8} (h : bytes.length = 4) :
    ofWord (UInt32.ofNat (decode bytes)) = bytes := by
  have hlt : decode bytes < 2 ^ 32 := by
    have hdecode := decode_lt bytes
    rwa [h] at hdecode
  rw [ofWord, UInt32.toNat_ofNat_of_lt' hlt, ← h]
  exact encode_decode bytes

/-- Bytes survive being read as words. -/
theorem ofWords_toWords {bytes : List UInt8} (h : bytes.length % 4 = 0) :
    ofWords (toWords bytes) = bytes := by
  induction hlen : bytes.length / 4 generalizing bytes with
  | zero =>
      obtain rfl := List.length_eq_zero_iff.1 (show bytes.length = 0 by omega)
      rfl
  | succ n ih =>
      have hfront : (bytes.take 4).length = 4 := List.length_take_of_le (by omega)
      have hrest : ofWords (toWords (bytes.drop 4)) = bytes.drop 4 :=
        ih (by rw [List.length_drop]; omega) (by rw [List.length_drop]; omega)
      rw [toWords_eq_cons (by omega), ofWords, List.flatMap_cons, ← ofWords, hrest, wordAt,
        List.drop_zero, ofWord_ofNat_decode hfront, List.take_append_drop]

end ShaderBytecode.LittleEndian
