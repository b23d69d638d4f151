import HyperSchema.Text.Percent
import HyperSchema.Unicode.CharSet

/-!
# Run-length tables

A table of code points is written as a text of runs, each with its length in hexadecimal digits of
lower case.
-/

namespace HyperSchema.Unicode

/-- Reads a length up to the first character that is no digit of lower case. -/
def readLength (n : Nat) : List Char → Nat × List Char
  | [] => (n, [])
  | c :: rest =>
    if c.isDigit || ('a' ≤ c && c ≤ 'f') then readLength (n * 16 + Text.hexDigitValue c) rest
    else (n, c :: rest)

/-- The runs of a table whose entries are a code of fixed width and a length; the fuel bounds the
number of runs. -/
def labelledRuns (width : Nat) : Nat → Nat → List Char → List (String × Nat × Nat)
  | 0, _, _ => []
  | _, _, [] => []
  | fuel + 1, start, cs =>
    let (length, rest) := readLength 0 (cs.drop width)
    (String.ofList (cs.take width), start, start + length - 1)
      :: labelledRuns width fuel (start + length) rest

/-- The code points of the runs with one of the given codes. -/
def runsOf (width : Nat) (table : String) (codes : List String) : CharSet :=
  CharSet.ofList (((labelledRuns width table.length 0 table.toList).filter
    (fun run => codes.contains run.1)).map Prod.snd)

/-- The code points of the second, fourth and so on run of a table of lengths divided by blanks. -/
def alternatingFrom (start : Nat) : List Nat → CharSet
  | skip :: length :: rest =>
    (start + skip, start + skip + length - 1) :: alternatingFrom (start + skip + length) rest
  | _ => []

def lengths : Nat → List Char → List Nat
  | 0, _ => []
  | _, [] => []
  | fuel + 1, cs =>
    let (length, rest) := readLength 0 cs
    length :: lengths fuel (rest.drop 1)

def alternating (table : String) : CharSet :=
  alternatingFrom 0 (lengths table.length table.toList)

end HyperSchema.Unicode
