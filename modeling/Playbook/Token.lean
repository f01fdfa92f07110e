/-!
# Playbook — generated names

Entries and generated files are named by tokens of thirty-two lower-case
hexadecimal digits. Tokens are numbered, so that no token is handed out twice.
-/

namespace Playbook.Token

/-- The hexadecimal digits of a number, from the last to the first. -/
def digitsBack : (count : Nat) → Nat → List Char
  | 0, _ => []
  | count + 1, n => Nat.digitChar (n % 16) :: digitsBack count (n / 16)

/-- The token with a number. -/
def ofNat (n : Nat) : String := String.ofList (digitsBack 32 n).reverse

end Playbook.Token
