import Pistache.Common.Bytes
import Pistache.Lib.Sextets

/-!
# Base 64

`Base64Encoder` and `Base64Decoder`: both walk over their input with an offset for reading and
one for writing, group by group, and treat what is left behind the last whole group apart.
Every access goes through `at`, which throws where the offset lies outside.

* `encode_eq` — the encoder writes the sextets of its input and the padding, and no access of
  it is outside.
* `decode_eq` — the decoder, on any text of an accepted length, puts the sextets of the
  characters before the padding together; no access of it is outside either.
* `decode_encode` — the round trip.
-/

set_option autoImplicit false

namespace Pistache.Base64

open Sextets

/-- What the conversions throw: `std::out_of_range` of an `at`, or a `std::runtime_error`. -/
inductive Fault where
  | out_of_range
  | runtime_error (what : String)
  deriving DecidableEq, Repr

/-- `at`, read. -/
def byteAt (bytes : Bytes) (i : Nat) : Except Fault UInt8 :=
  match bytes[i]? with
  | some c => .ok c
  | none => .error .out_of_range

/-- `at`, written. -/
def setAt (bytes : Bytes) (i : Nat) (c : UInt8) : Except Fault Bytes :=
  if i < bytes.length then .ok (bytes.set i c) else .error .out_of_range

/-! ## `Base64Encoder` -/

/-- `& ~3` clears the two lowest bits. -/
def calculateEncodedSize (decodedSize : Nat) : Nat := ((4 * decodedSize / 3) + 3) / 4 * 4

def encodeByte (ch : UInt8) : UInt8 :=
  if ch < 26 then ch + 65
  else if ch < 52 then ch + 71
  else if ch < 62 then ch - 4
  else if ch = 62 then 43
  else if ch = 63 then 47
  else 64

/-- `m_Base64EncodedString` and the two offsets. -/
structure Encoding where
  text : Bytes
  inputOffset : Nat
  outputOffset : Nat
  deriving DecidableEq, Repr

/-- One pass of the loop over the octet triplets. -/
def encodeTriplet (input : Bytes) (s : Encoding) : Except Fault Encoding := do
  let text ← setAt s.text (s.outputOffset + 0)
    (encodeByte ((← byteAt input (s.inputOffset + 0)) >>> 2))
  let text ← setAt text (s.outputOffset + 1)
    (encodeByte (((← byteAt input (s.inputOffset + 0)) &&& 0x03) <<< 4
      ||| (← byteAt input (s.inputOffset + 1)) >>> 4))
  let text ← setAt text (s.outputOffset + 2)
    (encodeByte (((← byteAt input (s.inputOffset + 1)) &&& 0x0F) <<< 2
      ||| (← byteAt input (s.inputOffset + 2)) >>> 6))
  let text ← setAt text (s.outputOffset + 3)
    (encodeByte ((← byteAt input (s.inputOffset + 2)) &&& 0x3F))
  return ⟨text, s.inputOffset + 3, s.outputOffset + 4⟩

def encodeTriplets (input : Bytes) : Nat → Encoding → Except Fault Encoding
  | 0, s => .ok s
  | n + 1, s => do encodeTriplets input n (← encodeTriplet input s)

/-- The `switch` over the octets behind the last triplet. -/
def encodeTail (input : Bytes) (s : Encoding) : Except Fault Bytes :=
  match input.length % 3 with
  | 1 => do
    let text ← setAt s.text (s.outputOffset + 0)
      (encodeByte ((← byteAt input (s.inputOffset + 0)) >>> 2))
    let text ← setAt text (s.outputOffset + 1)
      (encodeByte (((← byteAt input (s.inputOffset + 0)) &&& 0x03) <<< 4))
    let text ← setAt text (s.outputOffset + 2) 61
    setAt text (s.outputOffset + 3) 61
  | 2 => do
    let text ← setAt s.text (s.outputOffset + 0)
      (encodeByte ((← byteAt input (s.inputOffset + 0)) >>> 2))
    let text ← setAt text (s.outputOffset + 1)
      (encodeByte (((← byteAt input (s.inputOffset + 0)) &&& 0x03) <<< 4
        ||| (← byteAt input (s.inputOffset + 1)) >>> 4))
    let text ← setAt text (s.outputOffset + 2)
      (encodeByte (((← byteAt input (s.inputOffset + 1)) &&& 0x0F) <<< 2))
    setAt text (s.outputOffset + 3) 61
  | _ => .ok s.text

/-- `Base64Encoder::Encode`: the output buffer is allocated before, full of exclamation
marks.  The function is `noexcept`, so that a throw would end the program. -/
def encode (input : Bytes) : Except Fault Bytes := do
  let s ← encodeTriplets input (input.length / 3)
    ⟨List.replicate (calculateEncodedSize input.length) 33, 0, 0⟩
  encodeTail input s

/-- `Base64Encoder::EncodeString`. -/
def encodeString (stringInput : Bytes) : Except Fault Bytes := encode stringInput

/-! ## `Base64Decoder` -/

def decodeCharacter (character : UInt8) : UInt8 :=
  if 65 ≤ character ∧ character ≤ 90 then character - 65
  else if 97 ≤ character ∧ character ≤ 122 then character - (97 - 26)
  else if 48 ≤ character ∧ character ≤ 57 then character + (52 - 48)
  else if character = 43 then 62
  else if character = 47 then 63
  else 255

/-- The characters before the first that is no sextet. -/
def decodable (text : Bytes) : Bytes := text.takeWhile fun c => decodeCharacter c < 64

def calculateDecodedSize (text : Bytes) : Except Fault Nat :=
  if text = [] then .ok 0
  else if text.length < 4 then
    .error (.runtime_error "Base64 encoded stream should always be at least four bytes.")
  else if text.length % 4 ≠ 0 then
    .error (.runtime_error
      "Base64 encoded stream length should always be evenly divisible by four.")
  else
    let inputSize := (decodable text).length
    let decodedSize := inputSize / 4 * 3
    match inputSize % 4 with
    | 2 => .ok (decodedSize + 1)
    | 3 => .ok (decodedSize + 2)
    | _ => .ok decodedSize

/-- `m_DecodedData` and the two offsets. -/
structure Decoding where
  data : Bytes
  inputOffset : Nat
  outputOffset : Nat
  deriving DecidableEq, Repr

/-- The sextet of the character at an offset. -/
def sextetAt (text : Bytes) (i : Nat) : Except Fault UInt8 := do
  return decodeCharacter (← byteAt text i)

/-- One pass of the loop over the sets of three octets. -/
def decodeTriplet (text : Bytes) (s : Decoding) : Except Fault Decoding := do
  let data ← setAt s.data (s.outputOffset + 0)
    ((← sextetAt text (s.inputOffset + 0)) <<< 2 ||| (← sextetAt text (s.inputOffset + 1)) >>> 4)
  let data ← setAt data (s.outputOffset + 1)
    ((← sextetAt text (s.inputOffset + 1)) <<< 4 ||| (← sextetAt text (s.inputOffset + 2)) >>> 2)
  let data ← setAt data (s.outputOffset + 2)
    ((← sextetAt text (s.inputOffset + 2)) <<< 6 ||| (← sextetAt text (s.inputOffset + 3)))
  return ⟨data, s.inputOffset + 4, s.outputOffset + 3⟩

def decodeTriplets (text : Bytes) (decodedSize index : Nat) (s : Decoding) :
    Except Fault Decoding :=
  if index < decodedSize then do
    decodeTriplets text decodedSize (index + 3) (← decodeTriplet text s)
  else .ok s
termination_by decodedSize - index

/-- The `switch` over the octets behind the last set. -/
def decodeTail (text : Bytes) (decodedSize : Nat) (s : Decoding) : Except Fault Bytes :=
  match decodedSize % 3 with
  | 1 => do
    setAt s.data (s.outputOffset + 0)
      ((← sextetAt text (s.inputOffset + 0)) <<< 2
        ||| (← sextetAt text (s.inputOffset + 1)) >>> 4)
  | 2 => do
    let data ← setAt s.data (s.outputOffset + 0)
      ((← sextetAt text (s.inputOffset + 0)) <<< 2
        ||| (← sextetAt text (s.inputOffset + 1)) >>> 4)
    setAt data (s.outputOffset + 1)
      ((← sextetAt text (s.inputOffset + 1)) <<< 4
        ||| (← sextetAt text (s.inputOffset + 2)) >>> 2)
  | _ => .ok s.data

/-- `Base64Decoder::Decode`. -/
def decode (text : Bytes) : Except Fault Bytes := do
  let decodedSize ← calculateDecodedSize text
  let s ← decodeTriplets text decodedSize 2 ⟨List.replicate decodedSize 0, 0, 0⟩
  decodeTail text decodedSize s

/-! ## Accesses -/

theorem byteAt_append (done rest : Bytes) (i : Nat) :
    byteAt (done ++ rest) (done.length + i) = byteAt rest i := by
  unfold byteAt
  rw [List.getElem?_append_right (by omega), Nat.add_sub_cancel_left]

/-- A write behind the finished front of a buffer. -/
theorem setAt_append (front rest : Bytes) (i : Nat) (c : UInt8) :
    setAt (front ++ rest) (front.length + i) c = (front ++ ·) <$> setAt rest i c := by
  unfold setAt
  by_cases h : i < rest.length
  · have h' : front.length + i < (front ++ rest).length := by simp [h]
    rw [if_pos h, if_pos h', List.set_append_right _ _ (by omega), Nat.add_sub_cancel_left]
    rfl
  · have h' : ¬front.length + i < (front ++ rest).length := by simpa using h
    rw [if_neg h, if_neg h']
    rfl

theorem sextetAt_append (done rest : Bytes) (i : Nat) :
    sextetAt (done ++ rest) (done.length + i) = sextetAt rest i := by
  unfold sextetAt
  rw [byteAt_append]

@[simp] theorem byteAt_zero (c : UInt8) (rest : Bytes) : byteAt (c :: rest) 0 = .ok c := rfl

@[simp] theorem byteAt_succ (c : UInt8) (rest : Bytes) (i : Nat) :
    byteAt (c :: rest) (i + 1) = byteAt rest i := by
  simp [byteAt]

@[simp] theorem setAt_zero (c d : UInt8) (rest : Bytes) :
    setAt (c :: rest) 0 d = .ok (d :: rest) := by
  simp [setAt]

@[simp] theorem setAt_succ (c d : UInt8) (rest : Bytes) (i : Nat) :
    setAt (c :: rest) (i + 1) d = (c :: ·) <$> setAt rest i d := by
  unfold setAt
  by_cases h : i < rest.length
  · have h' : i + 1 < (c :: rest).length := by simpa using h
    rw [if_pos h, if_pos h']
    rfl
  · have h' : ¬i + 1 < (c :: rest).length := by simpa using h
    rw [if_neg h, if_neg h']
    rfl

@[simp] theorem ok_bind {α β : Type} (a : α) (f : α → Except Fault β) :
    (Except.ok a >>= f) = f a := rfl

@[simp] theorem map_ok {α β : Type} (f : α → β) (a : α) :
    f <$> (Except.ok a : Except Fault α) = .ok (f a) := rfl

/-! ## The encoder's loop -/

/-- The padding behind `n` octets. -/
def padding (n : Nat) : Bytes := List.replicate ((3 - n % 3) % 3) 61

/-- The text of a sequence of octets. -/
def encoded (input : Bytes) : Bytes := (sextets input).map encodeByte ++ padding input.length

theorem calculateEncodedSize_eq (n : Nat) : calculateEncodedSize n = 4 * ((n + 2) / 3) := by
  unfold calculateEncodedSize
  omega

theorem clear_low_bits (x : UInt64) : x &&& ~~~(3 : UInt64) = (x >>> 2) <<< 2 := by
  refine UInt64.toBitVec_inj.mp (BitVec.eq_of_getLsbD_eq fun i hi => ?_)
  have hthree : (3 : UInt64).toBitVec.getLsbD i = decide (i < 2) := by
    match i, hi with
    | 0, _ => rfl
    | 1, _ => rfl
    | i + 2, _ => simp [BitVec.getLsbD, Nat.testBit_succ]
  have hleft : (x &&& ~~~(3 : UInt64)).toBitVec.getLsbD i =
      (x.toBitVec.getLsbD i && !decide (i < 2)) := by
    rw [UInt64.toBitVec_and, BitVec.getLsbD_and, UInt64.toBitVec_not, BitVec.getLsbD_not, hthree]
    simp [hi]
  rw [hleft]
  by_cases h2 : i < 2
  · simp [h2]
  · have h' : 2 + (i - 2) = i := by omega
    simp [hi, h2, h']

/-- The source computes the size in 64 bits; they are enough for every object in memory. -/
theorem calculateEncodedSize_word (n : Nat) (h : n < 2 ^ 62) :
    ((4 * UInt64.ofNat n / 3 + 3) &&& ~~~(3 : UInt64)).toNat = calculateEncodedSize n := by
  have hfour : 4 * n % 18446744073709551616 = 4 * n := Nat.mod_eq_of_lt (by omega)
  have hsum : (4 * n / 3 + 3) % 18446744073709551616 = 4 * n / 3 + 3 :=
    Nat.mod_eq_of_lt (by omega)
  have hall : (4 * n / 3 + 3) / 4 * 4 % 18446744073709551616 = (4 * n / 3 + 3) / 4 * 4 :=
    Nat.mod_eq_of_lt (by omega)
  rw [clear_low_bits, calculateEncodedSize]
  simp [Nat.shiftLeft_eq, Nat.shiftRight_eq_div_pow]
  rw [hfour, hsum, hall]

theorem calculateEncodedSize_triplet (n : Nat) :
    calculateEncodedSize (n + 3) = calculateEncodedSize n + 4 := by
  unfold calculateEncodedSize
  omega

/-- One pass: three octets read, four characters written behind the front. -/
theorem encodeTriplet_eq (done rest front back : Bytes) (a b c w x y z : UInt8) :
    encodeTriplet (done ++ a :: b :: c :: rest)
        ⟨front ++ w :: x :: y :: z :: back, done.length, front.length⟩ =
      .ok ⟨(front ++ [first a, second a b, third b c, fourth c].map encodeByte) ++ back,
        (done ++ [a, b, c]).length, front.length + 4⟩ := by
  simp only [encodeTriplet, byteAt_append, setAt_append]
  simp [setAt_append, first, second, third, fourth]

theorem encodeTail_eq (done rest front : Bytes) (hdone : done.length % 3 = 0)
    (hrest : rest.length < 3) :
    encodeTail (done ++ rest)
        ⟨front ++ List.replicate (calculateEncodedSize rest.length) 33, done.length,
          front.length⟩ =
      .ok (front ++ encoded rest) := by
  have hmod : (done ++ rest).length % 3 = rest.length := by
    rw [List.length_append]
    omega
  unfold encodeTail
  rw [hmod]
  match rest, hrest with
  | [], _ => rfl
  | [a], _ =>
    simp only [byteAt_append, setAt_append]
    simp [setAt_append, calculateEncodedSize, List.replicate, encoded, sextets, padding, first,
      second]
  | [a, b], _ =>
    simp only [byteAt_append, setAt_append]
    simp [setAt_append, calculateEncodedSize, List.replicate, encoded, sextets, padding, first,
      second, third]

theorem encode_short (done rest front : Bytes) (hdone : done.length % 3 = 0)
    (hrest : rest.length < 3) :
    (do encodeTail (done ++ rest) (← encodeTriplets (done ++ rest) (rest.length / 3)
      ⟨front ++ List.replicate (calculateEncodedSize rest.length) 33, done.length,
        front.length⟩)) = .ok (front ++ encoded rest) := by
  rw [Nat.div_eq_of_lt hrest, encodeTriplets, ok_bind]
  exact encodeTail_eq done rest front hdone hrest

/-- The loop and what follows it, from any whole number of triplets on. -/
theorem encode_rest (rest : Bytes) : ∀ done front : Bytes, done.length % 3 = 0 →
    (do encodeTail (done ++ rest) (← encodeTriplets (done ++ rest) (rest.length / 3)
      ⟨front ++ List.replicate (calculateEncodedSize rest.length) 33, done.length,
        front.length⟩)) = .ok (front ++ encoded rest) := by
  induction rest using sextets.induct with
  | case1 a b c rest ih =>
    intro done front hdone
    have hcount : (a :: b :: c :: rest).length / 3 = rest.length / 3 + 1 := by
      simp only [List.length_cons]
      omega
    have hsize : List.replicate (calculateEncodedSize (a :: b :: c :: rest).length) (33 : UInt8) =
        33 :: 33 :: 33 :: 33 :: List.replicate (calculateEncodedSize rest.length) 33 := by
      rw [show (a :: b :: c :: rest).length = rest.length + 3 from rfl,
        calculateEncodedSize_triplet]
      rfl
    have happend : done ++ a :: b :: c :: rest = (done ++ [a, b, c]) ++ rest := by simp
    have ih' := ih (done ++ [a, b, c])
      (front ++ [first a, second a b, third b c, fourth c].map encodeByte) (by simpa using hdone)
    have hpad : padding (rest.length + 1 + 1 + 1) = padding rest.length := by
      unfold padding
      rw [show rest.length + 1 + 1 + 1 = rest.length + 3 from rfl, Nat.add_mod_right]
    have hfront : (front ++ [first a, second a b, third b c, fourth c].map encodeByte).length =
        front.length + 4 := by
      simp
    rw [hfront] at ih'
    rw [hcount, encodeTriplets, hsize, encodeTriplet_eq, ok_bind, happend]
    refine ih'.trans ?_
    simp [encoded, sextets, hpad]
  | case2 a b => exact fun done front hdone => encode_short done [a, b] front hdone (by simp)
  | case3 a => exact fun done front hdone => encode_short done [a] front hdone (by simp)
  | case4 => exact fun done front hdone => encode_short done [] front hdone (by simp)

/-- **The encoder** writes the sextets of its input and the padding. -/
theorem encode_eq (input : Bytes) : encode input = .ok (encoded input) :=
  encode_rest input [] [] rfl

theorem length_encoded (input : Bytes) :
    (encoded input).length = calculateEncodedSize input.length := by
  rw [calculateEncodedSize_eq, encoded, List.length_append, List.length_map, length_sextets,
    padding, List.length_replicate]
  omega

/-! ## The decoder's loop -/

theorem calculateDecodedSize_eq (text : Bytes) (h : text.length % 4 = 0) :
    calculateDecodedSize text = .ok (3 * (decodable text).length / 4) := by
  unfold calculateDecodedSize
  by_cases hempty : text = []
  · subst hempty
    rfl
  · have hpos : 0 < text.length := List.length_pos_iff.mpr hempty
    rw [if_neg hempty, if_neg (by omega), if_neg (by omega)]
    have hmod : (decodable text).length % 4 = 0 ∨ (decodable text).length % 4 = 1 ∨
        (decodable text).length % 4 = 2 ∨ (decodable text).length % 4 = 3 := by omega
    rcases hmod with hmod | hmod | hmod | hmod <;>
    · simp only [hmod]
      congr 1
      omega

theorem decodeTriplet_eq (done rest front back : Bytes) (p q r s x y z : UInt8) :
    decodeTriplet (done ++ p :: q :: r :: s :: rest)
        ⟨front ++ x :: y :: z :: back, done.length, front.length⟩ =
      .ok ⟨(front ++ octets ([p, q, r, s].map decodeCharacter)) ++ back,
        (done ++ [p, q, r, s]).length, front.length + 3⟩ := by
  simp only [decodeTriplet, sextetAt_append, setAt_append]
  simp [sextetAt, setAt_append, octets, octet₁, octet₂, octet₃]

theorem decodeTail_eq (done rest front : Bytes) (v : Bytes) (decodedSize : Nat)
    (hrest : v <+: rest) (hv : v.length < 4) (hfront : front.length % 3 = 0)
    (hsize : decodedSize = front.length + 3 * v.length / 4) :
    decodeTail (done ++ rest) decodedSize
        ⟨front ++ List.replicate (3 * v.length / 4) 0, done.length, front.length⟩ =
      .ok (front ++ octets (v.map decodeCharacter)) := by
  obtain ⟨junk, rfl⟩ := hrest
  have hmod : decodedSize % 3 = 3 * v.length / 4 := by omega
  unfold decodeTail
  rw [hmod]
  match v, hv with
  | [], _ => rfl
  | [p], _ => simp [octets]
  | [p, q], _ =>
    simp only [sextetAt_append, setAt_append]
    simp [sextetAt, octets, octet₁]
  | [p, q, r], _ =>
    simp only [sextetAt_append, setAt_append]
    simp [sextetAt, setAt_append, octets, octet₁, octet₂, List.replicate]

/-- The loop and what follows it, from any whole number of sets on; `v` are the characters
that are still to be decoded. -/
theorem decode_rest (junk : Bytes) (decodedSize : Nat) (v : Bytes) : ∀ done front : Bytes,
    front.length % 3 = 0 → decodedSize = front.length + 3 * v.length / 4 →
    (decodeTriplets (done ++ (v ++ junk)) decodedSize (front.length + 2)
        ⟨front ++ List.replicate (3 * v.length / 4) 0, done.length, front.length⟩
      >>= decodeTail (done ++ (v ++ junk)) decodedSize) =
      .ok (front ++ octets (v.map decodeCharacter)) := by
  have hshort : ∀ (v done front : Bytes), v.length < 4 → front.length % 3 = 0 →
      decodedSize = front.length + 3 * v.length / 4 →
      (decodeTriplets (done ++ (v ++ junk)) decodedSize (front.length + 2)
          ⟨front ++ List.replicate (3 * v.length / 4) 0, done.length, front.length⟩
        >>= decodeTail (done ++ (v ++ junk)) decodedSize) =
        .ok (front ++ octets (v.map decodeCharacter)) := by
    intro v done front hv hfront hsize
    rw [decodeTriplets, if_neg (by omega), ok_bind]
    exact decodeTail_eq done (v ++ junk) front v decodedSize (List.prefix_append v junk) hv
      hfront hsize
  induction v using octets.induct with
  | case1 p q r s rest ih =>
    intro done front hfront hsize
    have hcount : 3 * (p :: q :: r :: s :: rest).length / 4 = 3 * rest.length / 4 + 3 := by
      simp only [List.length_cons]
      omega
    have hdata : List.replicate (3 * (p :: q :: r :: s :: rest).length / 4) (0 : UInt8) =
        0 :: 0 :: 0 :: List.replicate (3 * rest.length / 4) 0 := by
      rw [hcount]
      rfl
    have happend : done ++ (p :: q :: r :: s :: rest ++ junk) =
        (done ++ [p, q, r, s]) ++ (rest ++ junk) := by simp
    have hlength : (front ++ octets ([p, q, r, s].map decodeCharacter)).length =
        front.length + 3 := by
      simp [octets]
    have ih' := ih (done ++ [p, q, r, s]) (front ++ octets ([p, q, r, s].map decodeCharacter))
      (by omega) (by omega)
    rw [hlength] at ih'
    have hpass := decodeTriplet_eq done (rest ++ junk) front
      (List.replicate (3 * rest.length / 4) 0) p q r s 0 0 0
    rw [decodeTriplets, if_pos (by omega), hdata]
    simp only [List.cons_append] at happend ⊢
    rw [hpass, ok_bind, happend]
    refine ih'.trans ?_
    simp [octets]
  | case2 p q r => exact fun done front => hshort [p, q, r] done front (by simp)
  | case3 p q => exact fun done front => hshort [p, q] done front (by simp)
  | case4 p => exact fun done front => hshort [p] done front (by simp)
  | case5 => exact fun done front => hshort [] done front (by simp)

/-- **The decoder**, on a text of any number of whole groups. -/
theorem decode_eq (text : Bytes) (h : text.length % 4 = 0) :
    decode text = .ok (octets ((decodable text).map decodeCharacter)) := by
  have hsplit : decodable text ++ text.dropWhile (fun c => decodeCharacter c < 64) = text :=
    List.takeWhile_append_dropWhile
  have hrest := decode_rest (text.dropWhile fun c => decodeCharacter c < 64)
    (3 * (decodable text).length / 4) (decodable text) [] [] rfl (by simp)
  rw [decode, calculateDecodedSize_eq text h, ok_bind]
  simpa [hsplit] using hrest

/-! ## Round trip -/

theorem decodeCharacter_encodeByte {x : UInt8} (h : x < 64) :
    decodeCharacter (encodeByte x) = x := by
  have htable : ∀ n, n < 64 →
      decodeCharacter (encodeByte (UInt8.ofNat n)) = UInt8.ofNat n := by decide
  have hx := htable x.toNat (UInt8.lt_iff_toNat_lt.mp h)
  rwa [UInt8.ofNat_toNat] at hx

theorem decodable_encoded (input : Bytes) :
    decodable (encoded input) = (sextets input).map encodeByte := by
  have hsextets : ∀ c ∈ (sextets input).map encodeByte, decodeCharacter c < 64 := by
    intro c hc
    obtain ⟨x, hx, rfl⟩ := List.mem_map.mp hc
    rw [decodeCharacter_encodeByte (sextets_lt input x hx)]
    exact sextets_lt input x hx
  have hpadding : (padding input.length).takeWhile (fun c => decodeCharacter c < 64) = [] := by
    unfold padding
    cases (3 - input.length % 3) % 3 with
    | zero => rfl
    | succ n => rfl
  unfold decodable encoded
  rw [List.takeWhile_append_of_pos (by simpa using hsextets), hpadding, List.append_nil]

/-- **Round trip.** -/
theorem decode_encoded (input : Bytes) : decode (encoded input) = .ok input := by
  have hlength : (encoded input).length % 4 = 0 := by
    rw [length_encoded, calculateEncodedSize_eq]
    omega
  have hback : ((sextets input).map encodeByte).map decodeCharacter = sextets input := by
    rw [List.map_map]
    exact (List.map_congr_left fun x hx =>
      decodeCharacter_encodeByte (sextets_lt input x hx)).trans (List.map_id _)
  rw [decode_eq _ hlength, decodable_encoded, hback, octets_sextets]

/-- No text makes the decoder reach outside: what it throws it throws for the length. -/
theorem decode_inside (text : Bytes) : decode text ≠ .error .out_of_range := by
  by_cases h : text.length % 4 = 0
  · rw [decode_eq text h]
    exact nofun
  · have hne : text ≠ [] := by
      rintro rfl
      exact h rfl
    rw [decode, calculateDecodedSize, if_neg hne]
    split
    · exact nofun
    · exact nofun

end Pistache.Base64
