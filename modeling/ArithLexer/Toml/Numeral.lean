import ArithLexer.Toml.Reading
import ArithLexer.Toml.Quoted

/-!
# Numerals

Integers are decimal with an optional sign, or hexadecimal, octal or binary
without one, and have to fit into 64 bits. Digits may be set apart by single
underscores. A decimal number with a fraction or an exponent is a float; only
whether it can be one matters here, so its value is compared with the largest
float and otherwise dropped.
-/

namespace ArithLexer.Toml

/-- The value of a decimal digit. -/
def decimalDigit? (c : Char) : Option Nat :=
  if '0' ≤ c ∧ c ≤ '9' then some (c.toNat - '0'.toNat) else none

/-- The value of a digit of a base up to sixteen. -/
def digit? (base : Nat) (c : Char) : Option Nat := (hexDigit? c).filter (· < base)

/-- One digit. -/
def readDigit (base : Nat) : Reader Nat
  | c :: rest => (digit? base c).map fun d => (d, rest)
  | [] => none

/-- One or more digits; an underscore may stand between two of them. -/
def readDigits (base : Nat) : Reader (List Nat) := fun text => do
  let (first, rest) ← readDigit base text
  let (others, rest) :=
    many (fun text => readDigit base ((expect '_' text).getD text)) rest
  return (first :: others, rest)

/-- The number that digits spell, the first one being the highest. -/
def ofDigits (base : Nat) (digits : List Nat) : Nat :=
  digits.foldl (fun n digit => base * n + digit) 0

/-- The number that digits spell as long as it is below a limit. From the digit
that reaches the limit on, further ones do not count. -/
def ofDigitsBelow (limit base : Nat) (digits : List Nat) : Nat :=
  digits.foldl (fun n digit => if n < limit then base * n + digit else n) 0

theorem le_foldl_digits {base : Nat} (hbase : 0 < base) (digits : List Nat) (n : Nat) :
    n ≤ digits.foldl (fun n digit => base * n + digit) n := by
  induction digits generalizing n with
  | nil => exact Nat.le_refl n
  | cons digit digits ih =>
    exact Nat.le_trans (Nat.le_trans (Nat.le_mul_of_pos_left n hbase) (Nat.le_add_right _ digit))
      (ih (base * n + digit))

/-- Numbers below the limit are spelled in full. -/
theorem ofDigitsBelow_of_lt {limit base : Nat} (hbase : 0 < base) {digits : List Nat}
    (h : ofDigits base digits < limit) :
    ofDigitsBelow limit base digits = ofDigits base digits := by
  unfold ofDigits at h
  unfold ofDigitsBelow ofDigits
  generalize 0 = n at h ⊢
  induction digits generalizing n with
  | nil => rfl
  | cons digit digits ih =>
    have hn := Nat.lt_of_le_of_lt (le_foldl_digits hbase (digit :: digits) n) h
    simp only [List.foldl_cons, hn, if_true]
    exact ih _ h

/-- An optional sign: whether it is a minus. -/
def readSign : List Char → Bool × List Char
  | '+' :: rest => (false, rest)
  | '-' :: rest => (true, rest)
  | text => (false, text)

/-- The digits of a decimal number without zeros in front. -/
def readWhole : Reader (List Nat)
  | '0' :: rest => some ([0], rest)
  | text => readDigits 10 text

/-- The integers of 64 bits. -/
def inRange (n : Int) : Bool := decide (-0x8000000000000000 ≤ n ∧ n < 0x8000000000000000)

/-- No integer is told apart from others from here on. -/
def integerLimit : Nat := 0x10000000000000000

/-- A decimal integer with an optional sign. -/
def readDecimal : Reader Int := fun text => do
  let (negative, rest) := readSign text
  let (digits, rest) ← readWhole rest
  let n := ofDigitsBelow integerLimit 10 digits
  return (if negative then -n else n, rest)

/-- An integer of another base behind its mark. -/
def readMarked (base : Nat) (text : List Char) : Option (Int × List Char) :=
  (readDigits base text).map fun (digits, rest) => (ofDigitsBelow integerLimit base digits, rest)

/-- An integer. -/
def readInteger : Reader Int := fun text => do
  let (n, rest) ← match text with
    | '0' :: 'x' :: rest => readMarked 16 rest
    | '0' :: 'o' :: rest => readMarked 8 rest
    | '0' :: 'b' :: rest => readMarked 2 rest
    | _ => readDecimal text
  if inRange n then return (n, rest) else none

/-- Numbers from here on are nearer to no float than to the largest one. -/
def floatLimit : Nat := Nat.pow 2 1024 - Nat.pow 2 970

/-- Whether `digits` times ten to the `exponent` is below the limit. The number
of its places decides unless there are as many as the limit has, and then its
fraction does not matter, since the limit is whole. -/
def belowFloatLimit (digits : List Nat) (exponent : Int) : Bool :=
  let significant := digits.dropWhile (· == 0)
  let places := significant.length + exponent
  if significant.isEmpty || decide (places < 309) then true
  else if decide (309 < places) then false
  else
    let whole := (significant ++ List.replicate exponent.toNat 0).take 309
    decide (ofDigits 10 whole < floatLimit)

/-- The digits behind a point. -/
def readFraction : Reader (List Nat) := fun text => do readDigits 10 (← expect '.' text)

/-- The digits of an exponent do not count once they have spelled this much. -/
def exponentLimit : Nat := 0x10000

/-- An exponent, with zeros in front or not. -/
def readExponent : Reader Int := fun text => do
  let rest ← (expect 'e' text).or (expect 'E' text)
  let (negative, rest) := readSign rest
  let (digits, rest) ← readDigits 10 rest
  let n := ofDigitsBelow exponentLimit 10 digits
  return (if negative then -n else n, rest)

/-- The text behind a decimal number with a fraction or an exponent. A positive
one has to be below the limit. -/
def finiteFloat? (text : List Char) : Option (List Char) := do
  let (negative, rest) := readSign text
  let (whole, rest) ← readWhole rest
  let (fraction, exponent, rest) ← match readFraction rest with
    | some (fraction, rest) =>
      let (exponent, rest) := (readExponent rest).getD (0, rest)
      some (fraction, exponent, rest)
    | none => (readExponent rest).map fun (exponent, rest) => ([], exponent, rest)
  if negative || belowFloatLimit (whole ++ fraction) (exponent - fraction.length) then some rest
  else none

/-- The text behind infinity or the number that is none. -/
def specialFloat? (text : List Char) : Option (List Char) :=
  let (_, rest) := readSign text
  (expectAll ['i', 'n', 'f'] rest).or (expectAll ['n', 'a', 'n'] rest)

/-- The text behind a float. -/
def float? (text : List Char) : Option (List Char) :=
  (finiteFloat? text).or (specialFloat? text)

end ArithLexer.Toml
