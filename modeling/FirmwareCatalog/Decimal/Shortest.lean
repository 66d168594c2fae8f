/-!
# Shortest decimals

The fewest decimal digits that read back to a binary64 value, chosen by exact
arithmetic: the reals that round to the value form an interval, and the first
power-of-ten grid with a point in it gives the digits. Of two points the nearer
is taken.
-/

namespace FirmwareCatalog.Decimal

/-- The finite value `mantissa * 2 ^ exponent`. -/
structure Dyadic where
  mantissa : Nat
  exponent : Int
  /-- Whether the gap below is half the gap above, as at a power of two. -/
  narrow : Bool

/-- The magnitude of a finite value. -/
def Dyadic.ofBits (bits : UInt64) : Dyadic :=
  let biased := ((bits >>> 52) &&& 0x7FF).toNat
  let fraction := (bits &&& 0xFFFFFFFFFFFFF).toNat
  if biased = 0 then ⟨fraction, -1074, false⟩
  else ⟨4503599627370496 + fraction, (biased : Int) - 1075, fraction = 0 && biased > 1⟩

/-- `digits * 10 ^ exponent`. -/
structure Scaled where
  digits : Nat
  exponent : Int

/-- Which of two equally near decimals is written. -/
inductive Tie where
  | up
  | even

/-- The order of `a * 10 ^ i` and `b * 2 ^ j`. -/
def compareScaled (a : Nat) (i : Int) (b : Nat) (j : Int) : Ordering :=
  compare (a * Nat.pow 10 i.toNat * Nat.pow 2 (-j).toNat) (b * Nat.pow 2 j.toNat * Nat.pow 10 (-i).toNat)

/-- Whether a decimal lies among the reals that round to the value. The ends of that interval round to
an even mantissa, so they belong to it exactly then. -/
def Dyadic.admits (x : Dyadic) (d : Scaled) : Bool :=
  let below := if x.narrow then 4 * x.mantissa - 1 else 4 * x.mantissa - 2
  let even := x.mantissa % 2 = 0
  let low := compareScaled d.digits d.exponent below (x.exponent - 2)
  let high := compareScaled d.digits d.exponent (4 * x.mantissa + 2) (x.exponent - 2)
  (low = .gt || (even && low = .eq)) && (high = .lt || (even && high = .eq))

/-- The least `k` with the value below `10 ^ k`, sought upward from an estimate by the binary logarithm. -/
def Dyadic.scale (x : Dyadic) : Int :=
  let estimate := ((x.mantissa.log2 : Int) + x.exponent) * 30103 / 100000
  let ks := [estimate, estimate + 1, estimate + 2, estimate + 3]
  (ks.find? fun k => compareScaled 1 k x.mantissa x.exponent = .gt).getD (estimate + 4)

/-- The value divided by `10 ^ i`, rounded down. -/
def Dyadic.quotient (x : Dyadic) (i : Int) : Nat :=
  x.mantissa * Nat.pow 2 x.exponent.toNat * Nat.pow 10 (-i).toNat
    / (Nat.pow 10 i.toNat * Nat.pow 2 (-x.exponent).toNat)

/-- The point of the grid of multiples of `10 ^ i` that reads back and is nearest to the value. -/
def Dyadic.onGrid? (x : Dyadic) (tie : Tie) (i : Int) : Option Scaled :=
  let d := x.quotient i
  match x.admits ⟨d, i⟩, x.admits ⟨d + 1, i⟩ with
  | false, false => none
  | true, false => some ⟨d, i⟩
  | false, true => some ⟨d + 1, i⟩
  | true, true =>
    match compareScaled (2 * d + 1) i (2 * x.mantissa) x.exponent, tie with
    | .gt, _ => some ⟨d, i⟩
    | .lt, _ => some ⟨d + 1, i⟩
    | .eq, .up => some ⟨d + 1, i⟩
    | .eq, .even => if d % 2 = 0 then some ⟨d, i⟩ else some ⟨d + 1, i⟩

/-- The value itself, with all its digits. -/
def Dyadic.exact (x : Dyadic) : Scaled :=
  if 0 ≤ x.exponent then ⟨x.mantissa * Nat.pow 2 x.exponent.toNat, 0⟩
  else ⟨x.mantissa * Nat.pow 5 (-x.exponent).toNat, x.exponent⟩

/-- Moves up to `count` trailing zeros of the digits into the exponent. -/
def Scaled.strip : (count : Nat) → Scaled → Scaled
  | 0, d => d
  | count + 1, d => if d.digits % 10 = 0 then Scaled.strip count ⟨d.digits / 10, d.exponent + 1⟩ else d

/-- The shortest decimal of a positive value; seventeen digits always suffice. -/
def Dyadic.shortest (x : Dyadic) (tie : Tie) : Scaled :=
  let k := x.scale
  (((List.range 17).findSome? fun (n : Nat) => x.onGrid? tie (k - (n + 1))).getD x.exact).strip 17

end FirmwareCatalog.Decimal
