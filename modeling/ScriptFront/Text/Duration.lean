import ScriptFront.Text.Bytes

/-!
# Durations

A length of time as it is shown: below a second in the largest unit that fits, from a second on in
hours, minutes and seconds. Fractions have as many digits as they need.
-/

namespace ScriptFront.Text.Duration

/-- A number of units, `places` decimal places of which belong to the fraction. -/
def withFraction (places n : Nat) : Bytes :=
  let digits := decimal (Nat.pow 10 places + n % Nat.pow 10 places)
  let fraction := (digits.tail.reverse.dropWhile (· = byte '0')).reverse
  decimal (n / Nat.pow 10 places) ++ if fraction = [] then [] else byte '.' :: fraction

/-- A length of time of at least a second, in nanoseconds. -/
def long (n : Nat) : Bytes :=
  let minutes := n / 60000000000
  let seconds := withFraction 9 (n % 60000000000) ++ utf8 "s"
  if minutes = 0 then seconds
  else if minutes < 60 then decimal minutes ++ byte 'm' :: seconds
  else decimal (minutes / 60) ++ byte 'h' :: decimal (minutes % 60) ++ byte 'm' :: seconds

/-- A **length of time**, given in nanoseconds. -/
def text (n : Nat) : Bytes :=
  if n = 0 then utf8 "0s"
  else if n < 1000 then decimal n ++ utf8 "ns"
  else if n < 1000000 then withFraction 3 n ++ utf8 "µs"
  else if n < 1000000000 then withFraction 6 n ++ utf8 "ms"
  else long n

end ScriptFront.Text.Duration
