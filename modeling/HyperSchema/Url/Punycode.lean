/-!
# Punycode

The encoding of a label outside ASCII: first its ASCII characters, then for each other character, in
ascending order, the distance from the state before as a number of variable length to the base 36.
The thresholds between digits move with a bias that adapts to the distances written so far.
-/

namespace HyperSchema.Punycode

def digitChar (d : Nat) : Char :=
  if d < 26 then Char.ofNat (97 + d) else Char.ofNat (22 + d)

def digitValue? (c : Char) : Option Nat :=
  if 'a' ≤ c && c ≤ 'z' then some (c.toNat - 97)
  else if 'A' ≤ c && c ≤ 'Z' then some (c.toNat - 65)
  else if '0' ≤ c && c ≤ '9' then some (c.toNat - 22)
  else none

/-- The threshold of the digit at a position, between 1 and 26. -/
def threshold (position bias : Nat) : Nat :=
  if position ≤ bias then 1 else if bias + 26 ≤ position then 26 else position - bias

theorem threshold_bounds (position bias : Nat) :
    1 ≤ threshold position bias ∧ threshold position bias ≤ 26 := by
  unfold threshold
  split
  · omega
  · split <;> omega

def reduceDelta (delta steps : Nat) : Nat × Nat :=
  if 455 < delta then reduceDelta (delta / 35) (steps + 36) else (delta, steps)
termination_by delta
decreasing_by omega

/-- The bias after a distance has been written. -/
def adapt (delta count : Nat) (first : Bool) : Nat :=
  let delta := if first then delta / 700 else delta / 2
  let (delta, steps) := reduceDelta (delta + delta / count) 0
  steps + 36 * delta / (delta + 38)

def digits (bias position q : Nat) : List Char :=
  let t := threshold position bias
  if q < t then [digitChar q]
  else digitChar (t + (q - t) % (36 - t)) :: digits bias (position + 36) ((q - t) / (36 - t))
termination_by q
decreasing_by
  have ht := threshold_bounds position bias
  have := Nat.div_le_self (q - threshold position bias) (36 - threshold position bias)
  omega

structure Encoder where
  output : List Char
  delta : Nat
  bias : Nat
  written : Nat

def Encoder.see (basic current : Nat) (e : Encoder) (c : Char) : Encoder :=
  if c.toNat < current then { e with delta := e.delta + 1 }
  else if c.toNat = current then
    { output := e.output ++ digits e.bias 36 e.delta
      delta := 0
      bias := adapt e.delta (e.written + 1) (e.written == basic)
      written := e.written + 1 }
  else e

def encodeFrom (label : List Char) (basic : Nat) : List Nat → Nat → Encoder → Encoder
  | [], _, e => e
  | next :: rest, current, e =>
    let e := { e with delta := e.delta + (next - current) * (e.written + 1) }
    let e := label.foldl (Encoder.see basic next) e
    encodeFrom label basic rest (next + 1) { e with delta := e.delta + 1 }

/-- The code points of a label outside ASCII, ascending and each once. -/
def foreignPoints (label : List Char) : List Nat :=
  ((label.filter (fun c => 128 ≤ c.toNat)).map Char.toNat).mergeSort.eraseDups

def encode (label : List Char) : List Char :=
  let basic := label.filter (fun c => c.toNat < 128)
  let e := encodeFrom label basic.length (foreignPoints label) 128 ⟨[], 0, 72, basic.length⟩
  basic ++ (if basic.isEmpty then [] else ['-']) ++ e.output

/-- Reads one distance. Answers the new state and what is left of the input. -/
def readDelta (bias : Nat) : List Char → Nat → Nat → Nat → Option (Nat × List Char)
  | [], _, _, _ => none
  | c :: rest, position, weight, i =>
    match digitValue? c with
    | none => none
    | some d =>
      let t := threshold position bias
      let i := i + d * weight
      if d < t then some (i, rest)
      else readDelta bias rest (position + 36) (weight * (36 - t)) i

/-- Puts the characters of the remaining distances into the output; the fuel bounds their number. -/
def decodeFrom : Nat → List Char → List Char → Nat → Nat → Nat → Option (List Char)
  | _, [], output, _, _, _ => some output
  | 0, _, _, _, _, _ => none
  | fuel + 1, input, output, n, i, bias =>
    match readDelta bias input 36 1 i with
    | none => none
    | some (j, rest) =>
      let length := output.length + 1
      let point := n + j / length
      let place := j % length
      if 0x10FFFF < point || (0xD800 ≤ point && point < 0xE000) then none
      else
        let output := output.take place ++ Char.ofNat point :: output.drop place
        decodeFrom fuel rest output point (place + 1) (adapt (j - i) length (i == 0))

/-- What stands before the last hyphen is copied; the rest are distances. -/
def decode? (encoded : List Char) : Option (List Char) :=
  let reversed := encoded.reverse
  let tail := (reversed.takeWhile (· != '-')).reverse
  let basic := ((reversed.dropWhile (· != '-')).drop 1).reverse
  if basic.all (fun c => c.toNat < 128) then decodeFrom tail.length tail basic 128 0 72 else none

end HyperSchema.Punycode
