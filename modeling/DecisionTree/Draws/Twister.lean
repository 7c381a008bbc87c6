import DecisionTree.Draws.Basic

/-!
# The Mersenne twister

The 32-bit generator MT19937: a state of 624 words is renewed as a whole, each word
from itself, its successor and the word 397 places on, and every word is tempered
when it is given out.

A number up to a maximum is drawn by cutting a word to as many bits as the maximum
has and drawing again until the result does not exceed it.  A maximum of zero takes
no word.
-/

namespace DecisionTree

/-- The words of the generator and the place of the next one. -/
structure Twister where
  words : Array UInt32
  next : Nat

namespace Twister

def wordCount : Nat := 624

/-- The words that follow from a first one. -/
def spread : Nat → Nat → UInt32 → List UInt32
  | 0, _, _ => []
  | count + 1, place, word =>
      word :: spread count (place + 1)
        ((1812433253 : UInt32) * (word ^^^ (word >>> 30)) + UInt32.ofNat (place + 1))

/-- The state that a seed determines; its words are renewed before the first one is
given out. -/
def ofSeed (seed : Nat) : Twister where
  words := (spread wordCount 0 (UInt32.ofNat seed)).toArray
  next := wordCount

/-- The renewed word at a place, from the words as they are now. -/
def twisted (words : Array UInt32) (place : Nat) : UInt32 :=
  let word (place : Nat) := words.getD (place % wordCount) 0
  let mixed := (word place &&& 0x80000000) ||| (word (place + 1) &&& 0x7fffffff)
  let turned := word (place + 397) ^^^ (mixed >>> 1)
  if mixed &&& 1 = 0 then turned else turned ^^^ 0x9908b0df

/-- All words renewed, in order, later words from earlier renewed ones. -/
def renew (words : Array UInt32) : Array UInt32 :=
  (List.range wordCount).foldl
    (fun words place => words.setIfInBounds place (twisted words place)) words

/-- The bits of a word as they are given out. -/
def temper (word : UInt32) : UInt32 :=
  let word := word ^^^ (word >>> 11)
  let word := word ^^^ ((word <<< 7) &&& 0x9d2c5680)
  let word := word ^^^ ((word <<< 15) &&& 0xefc60000)
  word ^^^ (word >>> 18)

/-- The next word. -/
def draw (twister : Twister) : UInt32 × Twister :=
  let twister :=
    if twister.next < wordCount then twister else { words := renew twister.words, next := 0 }
  (temper (twister.words.getD twister.next 0), { twister with next := twister.next + 1 })

/-- The least number of the form `2 ^ b - 1` that is not below a maximum. -/
def maskOf (maximum : Nat) : Nat :=
  if maximum = 0 then 0 else 1 <<< (maximum.log2 + 1) - 1

/-- Draws words until one is small enough after cutting, at most `tries` of them; at
least every second word is. -/
def drawUpTo (maximum : Nat) : Nat → Twister → Nat × Twister
  | 0, twister => (0, twister)
  | tries + 1, twister =>
      let (word, twister) := twister.draw
      let value := word.toNat &&& maskOf maximum
      if value ≤ maximum then (value, twister) else drawUpTo maximum tries twister

/-- A bound on the number of words that one draw takes. -/
def maximalTries : Nat := 10000

/-- A number below a bound. -/
def below (bound : Nat) (twister : Twister) : Nat × Twister :=
  if bound ≤ 1 then (0, twister) else drawUpTo (bound - 1) maximalTries twister

/-- The twister as a source of random numbers. -/
def draws : Draws Twister where
  seeded := ofSeed
  below bound twister :=
    let (value, twister) := twister.below bound
    (value, twister)

end Twister

end DecisionTree
