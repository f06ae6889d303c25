set_option autoImplicit false

/-! # Little-endian numbers

Numbers in containers are stored with their least significant byte first. `encode` writes a number
with a given count of bytes and `decode` reads all the bytes it is given; everything that is stored
or loaded goes through these two. -/

namespace ShaderBytecode.LittleEndian

/-- The lowest `count` bytes of `n`, least significant first. -/
def encode : Nat → Nat → List UInt8
  | 0, _ => []
  | count + 1, n => UInt8.ofNat n :: encode count (n / 256)

/-- The number that the bytes stand for. -/
def decode : List UInt8 → Nat
  | [] => 0
  | b :: bs => b.toNat + 256 * decode bs

/-- How many numbers can be written with `count` bytes. -/
def capacity : Nat → Nat
  | 0 => 1
  | count + 1 => 256 * capacity count

@[simp] theorem length_encode (count n : Nat) : (encode count n).length = count := by
  induction count generalizing n with
  | zero => rfl
  | succ count ih => simp [encode, ih]

/-- Reading back a stored number gives its lowest bytes. -/
theorem decode_encode (count n : Nat) : decode (encode count n) = n % capacity count := by
  induction count generalizing n with
  | zero => simp [encode, decode, capacity, Nat.mod_one]
  | succ count ih =>
      have low : (UInt8.ofNat n).toNat = n % 256 := UInt8.toNat_ofNat'
      simp only [encode, decode, capacity, ih, low, Nat.mod_mul]

/-- Storing a number that was read gives its bytes back. -/
theorem encode_decode (bs : List UInt8) : encode bs.length (decode bs) = bs := by
  induction bs with
  | nil => rfl
  | cons b bs ih =>
      have below : b.toNat < 256 := b.toNat_lt
      have low : UInt8.ofNat (b.toNat + 256 * decode bs) = b := by
        apply UInt8.toNat_inj.1
        rw [UInt8.toNat_ofNat']
        omega
      have high : (b.toNat + 256 * decode bs) / 256 = decode bs := by omega
      simp only [List.length_cons, encode, decode, low, high, ih]

theorem decode_lt (bs : List UInt8) : decode bs < capacity bs.length := by
  induction bs with
  | nil => simp [decode, capacity]
  | cons b bs ih =>
      have below : b.toNat < 256 := b.toNat_lt
      simp only [decode, List.length_cons, capacity]
      omega

/-- Several numbers, each with `count` bytes. -/
def encodeAll (count : Nat) (ns : List Nat) : List UInt8 := ns.flatMap (encode count)

/-- The four bytes of a word. -/
def ofWord (word : UInt32) : List UInt8 := encode 4 word.toNat

/-- The bytes of a word sequence. -/
def ofWords (words : List UInt32) : List UInt8 := words.flatMap ofWord

/-- The words that the bytes stand for, four bytes each; up to three bytes at the end are left out. -/
def toWords : List UInt8 → List UInt32
  | a :: b :: c :: d :: rest => UInt32.ofNat (decode [a, b, c, d]) :: toWords rest
  | _ => []

@[simp] theorem length_ofWord (word : UInt32) : (ofWord word).length = 4 := length_encode 4 _

@[simp] theorem length_encodeAll (count : Nat) (ns : List Nat) :
    (encodeAll count ns).length = count * ns.length := by
  induction ns with
  | nil => rfl
  | cons n ns ih =>
      rw [encodeAll, List.flatMap_cons, List.length_append, length_encode, ← encodeAll, ih,
        List.length_cons, Nat.mul_succ, Nat.add_comm]

@[simp] theorem length_ofWords (words : List UInt32) :
    (ofWords words).length = 4 * words.length := by
  induction words with
  | nil => rfl
  | cons word words ih =>
      rw [ofWords, List.flatMap_cons, List.length_append, length_ofWord, ← ofWords, ih,
        List.length_cons, Nat.mul_succ, Nat.add_comm]

theorem ofNat_decode_ofWord (word : UInt32) : UInt32.ofNat (decode (ofWord word)) = word := by
  have small : word.toNat % capacity 4 = word.toNat := Nat.mod_eq_of_lt word.toNat_lt
  rw [ofWord, decode_encode, small, UInt32.ofNat_toNat]

@[simp] theorem toWords_ofWord_append (word : UInt32) (rest : List UInt8) :
    toWords (ofWord word ++ rest) = word :: toWords rest := by
  have split : toWords (ofWord word ++ rest)
      = UInt32.ofNat (decode (ofWord word)) :: toWords rest := rfl
  rw [split, ofNat_decode_ofWord]

/-- Words survive being stored. -/
theorem toWords_ofWords (words : List UInt32) : toWords (ofWords words) = words := by
  induction words with
  | nil => rfl
  | cons word words ih =>
      rw [ofWords, List.flatMap_cons, toWords_ofWord_append]
      exact congrArg (word :: ·) ih

end ShaderBytecode.LittleEndian
