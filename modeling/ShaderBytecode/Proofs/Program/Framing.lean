import ShaderBytecode.Proofs.Bytes.Words
import ShaderBytecode.Proofs.Program.Bounds

set_option autoImplicit false

/-! # The frame of a program

The length that a program declares is looked at three times: when its tokens are read from bytes,
when the declared tokens are taken, and when it is decoded. The three agree. What is read from bytes
is never refused for its declared length afterwards (`TokenProgram.fault_ne_badDeclaredLength`), and
the tokens beyond that length have no influence on what is decoded
(`TokenProgram.decode_ofTokens_take`). -/

namespace ShaderBytecode

open LittleEndian (toWords ofWords wordAt)

namespace TokenProgram

/-! ## What is read from bytes -/

theorem length_tokens_ofTokens_toWords (bytes : List UInt8) :
    (ofTokens (toWords bytes)).tokens.length = bytes.length / 4 :=
  LittleEndian.length_toWords bytes

/-- The second word of the bytes is the declared length. -/
theorem declaredLength_ofTokens_toWords {bytes : List UInt8} (h : 8 ≤ bytes.length) :
    (ofTokens (toWords bytes)).declaredLength = wordAt bytes 4 := by
  have hword : (toWords bytes)[1]? = some (UInt32.ofNat (wordAt bytes 4)) :=
    LittleEndian.getElem?_toWords h
  have hlt : wordAt bytes 4 < 2 ^ 32 := LittleEndian.wordAt_lt bytes 4
  rw [declaredLength, ofTokens, hword, Option.getD_some, UInt32.toNat_ofNat_of_lt' hlt]

/-- Bytes are read as a program exactly if they are whole words, at least two of them, of which the
    second is at least two and not more than there are words. -/
theorem exists_ofBytes_eq_ok_iff {bytes : List UInt8} : (∃ p, ofBytes bytes = .ok p) ↔
    bytes.length % 4 = 0 ∧ 2 ≤ bytes.length / 4 ∧ 2 ≤ wordAt bytes 4
      ∧ wordAt bytes 4 ≤ bytes.length / 4 := by
  have hlength := length_tokens_ofTokens_toWords bytes
  constructor
  · rintro ⟨p, h⟩
    obtain ⟨haligned, rfl, htwo, hle⟩ := ofBytes_eq_ok_iff.1 h
    rw [hlength] at hle
    have hlong : 2 ≤ bytes.length / 4 := Nat.le_trans htwo hle
    rw [declaredLength_ofTokens_toWords (by omega)] at htwo hle
    exact ⟨haligned, hlong, htwo, hle⟩
  · rintro ⟨haligned, hlong, htwo, hle⟩
    have hbytes : 8 ≤ bytes.length := by omega
    have hdeclared := declaredLength_ofTokens_toWords hbytes
    exact ⟨_, ofBytes_eq_ok_iff.2 ⟨haligned, rfl, hdeclared ▸ htwo, hdeclared ▸ hlength ▸ hle⟩⟩

/-- A program that was read from bytes declares what the second word of the bytes tells. -/
theorem declaredLength_of_ofBytes {bytes : List UInt8} {p : TokenProgram}
    (h : ofBytes bytes = .ok p) : p.declaredLength = wordAt bytes 4 := by
  obtain ⟨-, hlong, -⟩ := exists_ofBytes_eq_ok_iff.1 ⟨p, h⟩
  obtain ⟨-, rfl, -⟩ := ofBytes_eq_ok_iff.1 h
  exact declaredLength_ofTokens_toWords (by omega)

/-! ## Decoding a program in its frame -/

/-- In a frame that is right the declared tokens are read behind the first two. -/
theorem decode_of_frame {p : TokenProgram}
    (h : 2 ≤ p.declaredLength ∧ p.declaredLength ≤ p.tokens.length) :
    p.decode = match Instruction.decodeAll.run (.ofTokens p.declaredTokens 2) with
      | .ok instructions _ => .ok ⟨p.stage, p.model, instructions⟩
      | .error e _ => .error e := by
  have hframe : ¬ (p.declaredLength < 2 ∨ p.declaredLength > p.tokens.length) := by omega
  exact if_neg hframe

/-- In a frame that is right no declared length is refused, by no instruction either. -/
theorem fault_ne_badDeclaredLength {p : TokenProgram}
    (h : 2 ≤ p.declaredLength ∧ p.declaredLength ≤ p.tokens.length) {e : DecodeError}
    (herror : p.decode = .error e) (declared available : Nat) :
    e.fault ≠ .badDeclaredLength declared available := by
  rw [decode_of_frame h] at herror
  split at herror
  · cases herror
  · next hrun =>
      cases herror
      -- The error is that of a single instruction, and no reader of instructions gives this one.
      obtain ⟨n, -, hreads⟩ :=
        Instruction.ReadsToEnd.exists_decodeAll (.ofTokens p.declaredTokens 2)
      obtain ⟨i, insts, c, -, -, hfails⟩ := hreads.exists_decode_eq_error hrun
      exact Instruction.bounded_decode.fault_ne_badDeclaredLength hfails declared available

/-! ## Tokens behind the declared length -/

/-- The declared length is that of any front part that still holds it. -/
theorem declaredLength_ofTokens_take {n : Nat} (h : 2 ≤ n) (tokens : List UInt32) :
    (ofTokens (tokens.take n)).declaredLength = (ofTokens tokens).declaredLength := by
  have hsecond : (tokens.take n)[1]? = tokens[1]? := List.getElem?_take_of_lt h
  rw [declaredLength, declaredLength, ofTokens, ofTokens, hsecond]

/-- Nothing is decoded differently if all tokens behind the declared length are cut off. -/
theorem decode_ofTokens_take {tokens : List UInt32} {n : Nat} (hn : 2 ≤ n)
    (hle : n ≤ tokens.length) (hdeclared : (ofTokens tokens).declaredLength = n) :
    (ofTokens (tokens.take n)).decode = (ofTokens tokens).decode := by
  have hcut := (declaredLength_ofTokens_take hn tokens).trans hdeclared
  have hlength : (ofTokens (tokens.take n)).tokens.length = n := List.length_take_of_le hle
  have htokens : (ofTokens (tokens.take n)).declaredTokens = (ofTokens tokens).declaredTokens := by
    have htake : (tokens.take n).take n = tokens.take n := by rw [List.take_take, Nat.min_self]
    rw [declaredTokens, declaredTokens, hcut, hdeclared]
    exact htake
  have hversion : (tokens.take n).head? = tokens.head? := by
    rw [List.head?_take, if_neg (by omega)]
  have hframe : 2 ≤ (ofTokens (tokens.take n)).declaredLength
      ∧ (ofTokens (tokens.take n)).declaredLength ≤ (ofTokens (tokens.take n)).tokens.length := by
    omega
  have hwhole : 2 ≤ (ofTokens tokens).declaredLength
      ∧ (ofTokens tokens).declaredLength ≤ (ofTokens tokens).tokens.length := by
    rw [hdeclared]
    exact ⟨hn, hle⟩
  rw [decode_of_frame hframe, decode_of_frame hwhole, htokens]
  simp only [ofTokens, hversion]

/-- Bytes that begin with the declared part of a program are a program that is decoded alike. -/
theorem exists_decode_eq_of_take_eq {bytes other : List UInt8} {p : TokenProgram}
    (h : ofBytes bytes = .ok p) (haligned : other.length % 4 = 0)
    (hlong : 4 * p.declaredLength ≤ other.length)
    (hsame : other.take (4 * p.declaredLength) = bytes.take (4 * p.declaredLength)) :
    ∃ q, ofBytes other = .ok q ∧ q.decode = p.decode := by
  obtain ⟨-, rfl, htwo, hle⟩ := ofBytes_eq_ok_iff.1 h
  generalize hn : (ofTokens (toWords bytes)).declaredLength = n at *
  have hle : n ≤ (toWords bytes).length := hle
  have htokens : (toWords other).take n = (toWords bytes).take n := by
    rw [← LittleEndian.toWords_take, hsame, LittleEndian.toWords_take]
  have hother : n ≤ (toWords other).length := by
    rw [LittleEndian.length_toWords]
    omega
  have hdeclared : (ofTokens (toWords other)).declaredLength = n := by
    rw [← declaredLength_ofTokens_take htwo, htokens, declaredLength_ofTokens_take htwo, hn]
  refine ⟨ofTokens (toWords other), ?_, ?_⟩
  · exact ofBytes_eq_ok_iff.2 ⟨haligned, rfl, hdeclared ▸ htwo, hdeclared ▸ hother⟩
  · rw [← decode_ofTokens_take htwo hother hdeclared, htokens, decode_ofTokens_take htwo hle hn]

/-- **The checks of a frame agree, and what lies behind it has no influence.** Bytes are read as a
    program exactly if they are whole words, at least two, and the second is between two and their
    number. The tokens of the program give the bytes back, the declared tokens are as many as the
    second word tells, decoding never refuses the declared length, and any whole words that begin
    with the declared ones are read too and decoded with the same result. -/
theorem frame_checks_agree (bytes : List UInt8) :
    ((∃ p, ofBytes bytes = .ok p) ↔ bytes.length % 4 = 0 ∧ 2 ≤ bytes.length / 4
      ∧ 2 ≤ wordAt bytes 4 ∧ wordAt bytes 4 ≤ bytes.length / 4) ∧
    ∀ p, ofBytes bytes = .ok p →
      ofWords p.tokens = bytes ∧
      p.declaredTokens = p.tokens.take (wordAt bytes 4) ∧
      p.declaredTokens.length = wordAt bytes 4 ∧
      (∀ e, p.decode = .error e →
        ∀ declared available, e.fault ≠ .badDeclaredLength declared available) ∧
      ∀ other : List UInt8, other.length % 4 = 0 → 4 * wordAt bytes 4 ≤ other.length →
        other.take (4 * wordAt bytes 4) = bytes.take (4 * wordAt bytes 4) →
        ∃ q, ofBytes other = .ok q ∧ q.decode = p.decode := by
  refine ⟨exists_ofBytes_eq_ok_iff, fun p h => ?_⟩
  have hdeclared := declaredLength_of_ofBytes h
  obtain ⟨haligned, hp, hframe⟩ := ofBytes_eq_ok_iff.1 h
  refine ⟨?_, by rw [declaredTokens, hdeclared], ?_, fun e => fault_ne_badDeclaredLength hframe, ?_⟩
  · rw [hp]
    exact LittleEndian.ofWords_toWords haligned
  · rw [length_declaredTokens hframe.2, hdeclared]
  · rw [← hdeclared]
    intro other haligned hlong hsame
    exact exists_decode_eq_of_take_eq h haligned hlong hsame

/-- A return in its frame is read and decoded whatever word stands behind it. -/
theorem frame_checks_agree_ret :
    let frame := ofWords [0x10050, 3, 0x100003E]
    ∃ p q, ofBytes frame = .ok p ∧ ofBytes (frame ++ [1, 2, 3, 4]) = .ok q
      ∧ ofWords p.tokens = frame ∧ p.declaredTokens.length = 3 ∧ q.decode = p.decode := by
  intro frame
  obtain ⟨hread, hprogram⟩ := frame_checks_agree frame
  obtain ⟨p, hp⟩ := hread.2 (by decide)
  obtain ⟨hbytes, -, hlength, -, hother⟩ := hprogram p hp
  obtain ⟨q, hq, hdecode⟩ := hother (frame ++ [1, 2, 3, 4]) (by decide) (by decide) (by decide)
  exact ⟨p, q, hp, hq, hbytes, hlength, hdecode⟩

end TokenProgram

end ShaderBytecode
