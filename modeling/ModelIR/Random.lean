/-!
# Random numbers from words

A source gives words of 64 bits, one after the other. `draw n` is a number from 1 to `n`: the upper
half of the product of a word and `n` counts up from 1, and if the lower half lies above
`2 ^ 64 - n` a second word refines it, which may carry into the upper half.
-/

namespace ModelIR

/-- A sequence of words, and how many of them are used up. -/
structure WordSource where
  word : Nat → UInt64
  used : Nat := 0

namespace WordSource

/-- A source that repeats a list of words; an empty list stands for zeros. -/
def cycle (words : List UInt64) : WordSource where
  word i := words[i % words.length]?.getD 0

/-- Spreads what is in a word over all of its bits. -/
def mix (word : UInt64) : UInt64 :=
  let word := (word ^^^ (word >>> 30)) * 0xBF58476D1CE4E5B9
  let word := (word ^^^ (word >>> 27)) * 0x94D049BB133111EB
  word ^^^ (word >>> 31)

/-- A source whose words are mixed from a seed that goes up by steps. -/
def ofSeed (seed : UInt64) : WordSource where
  word i := mix (seed + (UInt64.ofNat i + 1) * 0x9E3779B97F4A7C15)

/-- The next word. -/
def next : StateM WordSource UInt64 :=
  modifyGet fun source => (source.word source.used, { source with used := source.used + 1 })

end WordSource

/-- How many words there are. -/
def wordCount : Nat := 0x10000000000000000

/-- A number from 1 to `n`. -/
def draw (n : Nat) : StateM WordSource Nat := do
  let product := (← WordSource.next).toNat * n
  let upper := product / wordCount
  let lower := product % wordCount
  if lower > wordCount - n then
    let refined := (← WordSource.next).toNat * n / wordCount
    return 1 + upper + (if lower + refined ≥ wordCount then 1 else 0)
  else
    return 1 + upper

end ModelIR
