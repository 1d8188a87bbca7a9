/-!
# Octets in sextets

Three octets are four sextets.  `sextets` cuts a sequence of octets, the last group filled up
with zero bits; `octets` puts sextets together again and drops the bits that do not fill an
octet.

* `octets_sextets` — the octets come back.
* `length_sextets` — the size.
-/

set_option autoImplicit false

namespace Sextets

/-! ## One group -/

/-- The sextets in which the octets `a`, `b` and `c` lie. -/
def first (a : UInt8) : UInt8 := a >>> 2
def second (a b : UInt8) : UInt8 := (a &&& 0x03) <<< 4 ||| b >>> 4
def third (b c : UInt8) : UInt8 := (b &&& 0x0F) <<< 2 ||| c >>> 6
def fourth (c : UInt8) : UInt8 := c &&& 0x3F

/-- The octets that lie in the sextets `p`, `q`, `r` and `s`. -/
def octet₁ (p q : UInt8) : UInt8 := p <<< 2 ||| q >>> 4
def octet₂ (q r : UInt8) : UInt8 := q <<< 4 ||| r >>> 2
def octet₃ (r s : UInt8) : UInt8 := r <<< 6 ||| s

/-- Two bytes are equal when their eight bits are. -/
theorem eq_of_bits {x y : UInt8}
    (h : ∀ i, i < 8 → x.toBitVec.getLsbD i = y.toBitVec.getLsbD i) : x = y :=
  UInt8.toBitVec_inj.mp (BitVec.eq_of_getLsbD_eq h)

theorem each_bit {P : Nat → Prop} (h : P 0 ∧ P 1 ∧ P 2 ∧ P 3 ∧ P 4 ∧ P 5 ∧ P 6 ∧ P 7)
    (i : Nat) (hi : i < 8) : P i := by
  obtain ⟨h0, h1, h2, h3, h4, h5, h6, h7⟩ := h
  have hcases : i = 0 ∨ i = 1 ∨ i = 2 ∨ i = 3 ∨ i = 4 ∨ i = 5 ∨ i = 6 ∨ i = 7 := by omega
  rcases hcases with rfl | rfl | rfl | rfl | rfl | rfl | rfl | rfl <;> assumption

theorem octet₁_first_second (a b : UInt8) : octet₁ (first a) (second a b) = a := by
  refine eq_of_bits (each_bit ?_)
  simp [octet₁, first, second]

theorem octet₂_second_third (a b c : UInt8) : octet₂ (second a b) (third b c) = b := by
  refine eq_of_bits (each_bit ?_)
  simp [octet₂, second, third]

theorem octet₃_third_fourth (b c : UInt8) : octet₃ (third b c) (fourth c) = c := by
  refine eq_of_bits (each_bit ?_)
  simp [octet₃, third, fourth]

theorem lt_of_masked {x : UInt8} (h : x &&& 0x3F = x) : x < 64 := by
  rw [← h, UInt8.lt_iff_toNat_lt, UInt8.toNat_and]
  exact Nat.lt_of_le_of_lt Nat.and_le_right (by decide)

theorem first_lt (a : UInt8) : first a < 64 := by
  refine lt_of_masked (eq_of_bits (each_bit ?_))
  simp [first]

theorem second_lt (a b : UInt8) : second a b < 64 := by
  refine lt_of_masked (eq_of_bits (each_bit ?_))
  simp [second]

theorem third_lt (b c : UInt8) : third b c < 64 := by
  refine lt_of_masked (eq_of_bits (each_bit ?_))
  simp [third]

theorem fourth_lt (c : UInt8) : fourth c < 64 := by
  refine lt_of_masked (eq_of_bits (each_bit ?_))
  simp [fourth]

/-! ## Sequences -/

def sextets : List UInt8 → List UInt8
  | a :: b :: c :: rest => first a :: second a b :: third b c :: fourth c :: sextets rest
  | [a, b] => [first a, second a b, third b 0]
  | [a] => [first a, second a 0]
  | [] => []

def octets : List UInt8 → List UInt8
  | p :: q :: r :: s :: rest => octet₁ p q :: octet₂ q r :: octet₃ r s :: octets rest
  | [p, q, r] => [octet₁ p q, octet₂ q r]
  | [p, q] => [octet₁ p q]
  | [_] => []
  | [] => []

/-- **Round trip.** -/
theorem octets_sextets (bytes : List UInt8) : octets (sextets bytes) = bytes := by
  induction bytes using sextets.induct with
  | case1 a b c rest ih =>
    simp only [sextets, octets, octet₁_first_second, octet₂_second_third, octet₃_third_fourth, ih]
  | case2 a b => simp only [sextets, octets, octet₁_first_second, octet₂_second_third]
  | case3 a => simp only [sextets, octets, octet₁_first_second]
  | case4 => rfl

theorem sextets_lt (bytes : List UInt8) : ∀ x ∈ sextets bytes, x < 64 := by
  induction bytes using sextets.induct with
  | case1 a b c rest ih =>
    simpa [sextets, first_lt, second_lt, third_lt, fourth_lt] using ih
  | case2 a b => simp [sextets, first_lt, second_lt, third_lt]
  | case3 a => simp [sextets, first_lt, second_lt]
  | case4 => simp [sextets]

theorem length_sextets (bytes : List UInt8) :
    (sextets bytes).length = (4 * bytes.length + 2) / 3 := by
  induction bytes using sextets.induct with
  | case1 a b c rest ih =>
    simp only [sextets, List.length_cons, ih]
    omega
  | case2 a b => simp [sextets]
  | case3 a => simp [sextets]
  | case4 => simp [sextets]

end Sextets
