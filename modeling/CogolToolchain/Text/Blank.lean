/-!
# Blanks, words and lines

The characters of Unicode's white space class separate tokens in source text and fields in a
listing. A word is a longest run of characters that are not blank.
-/

namespace CogolToolchain
namespace Text

def isBlank (c : Char) : Bool :=
  let n := c.toNat
  (0x9 ≤ n && n ≤ 0xd) || n == 0x20 || n == 0x85 || n == 0xa0 || n == 0x1680
    || (0x2000 ≤ n && n ≤ 0x200a) || n == 0x2028 || n == 0x2029 || n == 0x202f || n == 0x205f
    || n == 0x3000

def trim (cs : List Char) : List Char :=
  ((cs.dropWhile isBlank).reverse.dropWhile isBlank).reverse

def consWord (word : List Char) (words : List (List Char)) : List (List Char) :=
  if word.isEmpty then words else word :: words

/-- Reads one more character in front of `(word, words)`: the word that a text starts with, possibly
empty, and the words after it. -/
def stepWord (c : Char) (read : List Char × List (List Char)) : List Char × List (List Char) :=
  if isBlank c then ([], consWord read.1 read.2) else (c :: read.1, read.2)

def words (cs : List Char) : List (List Char) :=
  let read := cs.foldr stepWord ([], [])
  consWord read.1 read.2

/-- Reads one more character in front of `(line, lines)`: the first line of a text and the lines
after it. A newline ends a line. -/
def stepLine (c : Char) (read : List Char × List (List Char)) : List Char × List (List Char) :=
  if c == '\n' then ([], read.1 :: read.2) else (c :: read.1, read.2)

/-- The lines of a text. A text that ends in a newline has an empty last line. -/
def lines (cs : List Char) : List (List Char) :=
  let read := cs.foldr stepLine ([], [])
  read.1 :: read.2

/-- The parts of a text before and after the first `c`; `none` if there is no `c`. -/
def cutAt? (c : Char) : List Char → Option (List Char × List Char)
  | [] => none
  | d :: ds =>
    if d == c then some ([], ds) else (cutAt? c ds).map fun (left, right) => (d :: left, right)

end Text
end CogolToolchain
