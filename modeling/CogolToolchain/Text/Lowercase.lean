import CogolToolchain.Text.CaseTable

/-!
# Lower-casing

Source text is read without regard to letter case: the whole text is lower-cased before it is cut
into tokens. Every character has one lower-case form, with two exceptions. A capital I with a dot
above becomes two characters, and a capital sigma becomes the final sigma `ς` at the end of a word
and `σ` elsewhere. Whether a word ends is decided by the nearest characters on both sides that are
not ignorable.
-/

namespace CogolToolchain
namespace Text

def inRanges (ranges : List (Nat × Nat)) (c : Char) : Bool :=
  ranges.any fun (first, last) => first ≤ c.toNat && c.toNat ≤ last

def isCased (c : Char) : Bool := inRanges casedRanges c

def isCaseIgnorable (c : Char) : Bool := inRanges caseIgnorableRanges c

/-- The small letter of `c`, or `c` itself; context plays no part. -/
def lowercaseChar (c : Char) : Char :=
  if c.toNat < 128 then c.toLower
  else
    let covers : Nat × Nat × Nat × Int → Bool := fun (first, last, stride, _) =>
      first ≤ c.toNat && c.toNat ≤ last && (c.toNat - first) % stride == 0
    match lowercaseRuns.find? covers with
    | some (_, _, _, shift) => Char.ofNat (c.toNat + shift).toNat
    | none => c

/-- Whether the first character that is not ignorable exists and has a letter case. -/
def meetsCased (cs : List Char) : Bool :=
  match cs.dropWhile isCaseIgnorable with
  | [] => false
  | c :: _ => isCased c

/-- The lower-case form of the text `cs`, which follows the characters `before`, nearest first. -/
def lowercaseAfter (before : List Char) : List Char → List Char
  | [] => []
  | c :: cs =>
    let small :=
      if c == 'Σ' then
        if meetsCased before && !meetsCased cs then ['ς'] else ['σ']
      else if c == 'İ' then ['i', '\u0307']
      else [lowercaseChar c]
    small ++ lowercaseAfter (c :: before) cs

def lowercase (text : String) : List Char := lowercaseAfter [] text.toList

end Text
end CogolToolchain
