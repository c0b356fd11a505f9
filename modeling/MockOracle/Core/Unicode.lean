import Mathlib.Data.List.Basic
import Mathlib.Tactic.Common

/-!
# Unicode tables

What the engine takes from the character tables of the standard library, with what is known of them
for ASCII.
-/

namespace MockOracle

/-- What the code takes from the Unicode tables. ASCII is as usual. -/
structure Unicode where
  upper : Char → List Char
  isAlphanumeric : Char → Bool
  isUppercase : Char → Bool
  upper_ascii : ∀ c : Char, c.toNat < 128 → upper c = [c.toUpper]
  isAlphanumeric_ascii : ∀ c : Char, c.toNat < 128 → isAlphanumeric c = c.isAlphanum
  isUppercase_ascii : ∀ c : Char, c.toNat < 128 → isUppercase c = c.isUpper

/-- The tables for ASCII and three more letters, for runs on fixed texts. -/
def Unicode.sample : Unicode where
  upper c := if c = 'ı' then ['I'] else if c = 'ſ' then ['S'] else if c = 'ß' then ['S', 'S']
    else [c.toUpper]
  isAlphanumeric c := c = 'ı' || c = 'ſ' || c = 'ß' || c.isAlphanum
  isUppercase c := c.isUpper
  upper_ascii c ascii := by
    have other {d : Char} (high : 128 ≤ d.toNat) : c ≠ d := by
      rintro rfl
      omega
    rw [if_neg (other (by decide)), if_neg (other (by decide)), if_neg (other (by decide))]
  isAlphanumeric_ascii c ascii := by
    have other {d : Char} (high : 128 ≤ d.toNat) : decide (c = d) = false := by
      refine decide_eq_false ?_
      rintro rfl
      omega
    rw [other (by decide), other (by decide), other (by decide)]
    rfl
  isUppercase_ascii _ _ := rfl

/-- The text in capitals. A character may become several. -/
def Unicode.toUppercase (unicode : Unicode) (text : List Char) : List Char :=
  text.flatMap unicode.upper

end MockOracle
