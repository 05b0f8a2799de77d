import Mathlib.Tactic

/-!
# Bytes and the clock

What every module of the server shares: `std::string` and `std::vector<unsigned char>` are both lists
of bytes here, and every class that asks for the time asks the same kind of clock.
-/

namespace TurtleServer

/-- The content of a `std::string` or of a `std::vector<unsigned char>`. -/
abbrev Bytes := List UInt8

/-- A string literal of the source. -/
def bytes (s : String) : Bytes := s.toList.map fun c => UInt8.ofNat c.toNat

/-- The values of the clock at its successive reads: nondecreasing 64-bit milliseconds. -/
structure Clock where
  now : ℕ → ℕ
  mono : Monotone now
  lt_max : ∀ i, now i < 2 ^ 64

/-- The clock that moves by one millisecond at every look, until it stands at `limit`. -/
def Clock.upTo (limit : ℕ) (h : limit < 2 ^ 64) : Clock where
  now i := min i limit
  mono _ _ hij := min_le_min_right _ hij
  lt_max i := Nat.lt_of_le_of_lt (Nat.min_le_right i limit) h

end TurtleServer
