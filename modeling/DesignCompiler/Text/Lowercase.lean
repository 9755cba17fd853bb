import DesignCompiler.Text.Class

/-!
# Lower case

The lower-case form of a text by the full mapping of Unicode: every letter by itself, except that
a capital dotted I becomes two characters and that a capital sigma at the end of a word takes its
final form.
-/

namespace DesignCompiler.Text

/-- The simple lower-case form of a character; a character without one stands for itself. -/
def lowerChar (c : Char) : Char :=
  let n := c.toNat
  if n < 128 then c.toLower
  else match lowercaseRuns.find?
    fun r => decide (r.first ≤ n) && decide (n ≤ r.last) && (n - r.first) % r.step == 0 with
    | some r => Char.ofNat (Int.toNat (n + r.shift))
    | none => c

/-- Whether the nearest character that is not passed over is a cased letter. -/
def casedNext (cs : List Char) : Bool :=
  match cs.dropWhile isCaseIgnorable with
  | c :: _ => isCased c
  | [] => false

/-- Lower case of `rest`, of which `before` (latest character first) stands in front. -/
def lowercaseFrom (before : List Char) : List Char → List Char
  | [] => []
  | c :: rest =>
    let image :=
      if c == 'Σ' then
        if casedNext before && !casedNext rest then ['ς'] else ['σ']
      else if c == 'İ' then ['i', '\u0307']
      else [lowerChar c]
    image ++ lowercaseFrom (c :: before) rest

/-- The text in lower case. -/
def lowercase (cs : List Char) : List Char :=
  lowercaseFrom [] cs

end DesignCompiler.Text
