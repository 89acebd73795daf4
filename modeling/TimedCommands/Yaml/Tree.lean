import TimedCommands.Number.Decimal
import TimedCommands.Yaml.Node

/-!
# Documents as trees

A tree is a document with its scalars interpreted. A plain scalar is null, a boolean,
an integer or a real if it is spelled like one, and a text otherwise; any other scalar
is a text. Digits behind a leading zero are a text, and so is a number whose nearest
real is infinite.

A tag that all documents share says what a scalar is to be read as, and says nothing of
a collection. A tag of the document's own, which begins with an exclamation mark, means
nothing here; the tree keeps it together with what it was given to.

Not every well-formed document has a tree. A mapping must not repeat a key, an
integer must fit 64 bits unless it is so large that it is read as a real, a tag must have
a name, and collections must not be nested too deeply.
-/

namespace TimedCommands.Yaml

/-- The meaning of a document part. Integers lie in the signed or unsigned 64-bit range. -/
inductive Tree where
  | null
  | boolean (flag : Bool)
  | integer (number : Int)
  | real (number : Float)
  | text (content : String)
  | sequence (items : List Tree)
  | mapping (entries : List (Tree × Tree))
  /-- What a tag of the document's own was given to. -/
  | tagged (tag : String) (content : Tree)
  deriving Repr

namespace Tree

/-- The spellings of null; a scalar that is left out is null too. -/
def nullSpellings : List String := ["", "~", "null", "Null", "NULL"]

/-- The boolean that a plain scalar spells. -/
def boolean? (text : String) : Option Bool :=
  if text ∈ ["true", "True", "TRUE"] then some true
  else if text ∈ ["false", "False", "FALSE"] then some false
  else none

/-- The value of a digit in a base. -/
def digit? (base : Nat) (char : Char) : Option Nat := do
  let value ← Text.hexDigit? char
  if value < base then some value else none

/-- The number that digits in a base denote; there must be at least one. -/
def natural? (base : Nat) (digits : List Char) : Option Nat := do
  if digits = [] then none
  else
    let values ← digits.mapM (digit? base)
    return values.foldl (fun number digit => number * base + digit) 0

/-- Whether a number has digits behind a leading zero. -/
def hasLeadingZero (unsigned : List Char) : Bool :=
  match unsigned with
  | '0' :: rest => rest ≠ [] && rest.all Char.isDigit
  | _ => false

/-- The number that an unsigned plain scalar spells: decimal, or in the base that its
first two characters give. -/
def unsigned? (chars : List Char) : Option Nat :=
  match chars with
  | '0' :: 'x' :: digits => natural? 16 digits
  | '0' :: 'o' :: digits => natural? 8 digits
  | '0' :: 'b' :: digits => natural? 2 digits
  | _ => if hasLeadingZero chars then none else natural? 10 chars

/-- The integer that a plain scalar spells, with an optional sign. -/
def integer? (chars : List Char) : Option Int :=
  match chars with
  | '+' :: rest => (unsigned? rest).map Int.ofNat
  | '-' :: rest => (unsigned? rest).map fun number => -Int.ofNat number
  | _ => (unsigned? chars).map Int.ofNat

/-- What becomes of an integer of a given size. -/
inductive IntegerSize where
  /-- It fits 64 bits, signed or unsigned. -/
  | small
  /-- It fits 128 bits, and no field can hold it. -/
  | refused
  /-- It is beyond 128 bits and counts as a real. -/
  | huge
  deriving Repr, DecidableEq

/-- The size of an integer. -/
def sizeOf (number : Int) : IntegerSize :=
  if Int64.minValue.toInt ≤ number ∧ number < UInt64.size then .small
  else if -0x80000000000000000000000000000000 ≤ number
    ∧ number < 0x100000000000000000000000000000000 then .refused
  else .huge

/-- The characters behind a plus sign, if there is one. -/
def dropPlus : List Char → List Char
  | '+' :: rest => rest
  | chars => chars

/-- Whether a sign comes first. -/
def startsWithSign : List Char → Bool
  | '+' :: _ => true
  | '-' :: _ => true
  | _ => false

/-- The real that a scalar spells. Only the words with a point denote an infinity or no number;
a decimal must have a finite nearest real. -/
def float? (text : String) : Option Float :=
  let chars := text.toList
  let unplussed := dropPlus chars
  if String.ofList unplussed ∈ [".inf", ".Inf", ".INF"] then some (1.0 / 0.0)
  else if text ∈ ["-.inf", "-.Inf", "-.INF"] then some (-1.0 / 0.0)
  else if text ∈ [".nan", ".NaN", ".NAN"] then some (0.0 / 0.0)
  else if chars.head? = some '+' && startsWithSign unplussed then none
  else do
    let decimal ← Decimal.ofChars? unplussed
    if decimal.word = Binary64.infinityWord then none else some decimal.toFloat

/-- The real that a plain scalar spells. It has no digits behind a leading zero. -/
def real? (text : String) : Option Float :=
  let chars := text.toList
  if hasLeadingZero (if startsWithSign chars then chars.drop 1 else chars) then none
  else float? text

/-- A plain scalar that is no integer is a real or a text. -/
def realOrText (content : String) : Tree :=
  match real? content with
  | some number => real number
  | none => text content

/-- The meaning of a plain scalar. -/
def ofPlain? (content : String) : Option Tree :=
  if content ∈ nullSpellings then some null
  else match boolean? content with
    | some flag => some (boolean flag)
    | none => match integer? content.toList with
      | some number => match sizeOf number with
        | .small => some (integer number)
        | .refused => none
        | .huge => some (realOrText content)
      | none => some (realOrText content)

/-- The meaning of a scalar without a tag. -/
def ofScalar? (content : String) (plain : Bool) : Option Tree :=
  if plain then ofPlain? content else some (text content)

/-- The name of a tag of the document's own. -/
def ownTag? (tag : String) : Option String :=
  match tag.toList with
  | '!' :: name => some (String.ofList name)
  | _ => none

/-- A tree with the tag that it was given. A tag of the document's own must have a name, and any
other is dropped. -/
def label? (tag : Option String) (tree : Tree) : Option Tree :=
  match tag.bind ownTag? with
  | none => some tree
  | some name => if name = "" then none else some (tagged name tree)

/-- The meaning of a scalar that a tag shared by all documents says the type of. It must be spelled
like one, and other types than these four are texts. -/
def ofType? (type content : String) : Option Tree :=
  if type = "bool" then (boolean? content).map boolean
  else if type = "int" then do
    let number ← integer? content.toList
    if sizeOf number = .small then some (integer number) else none
  else if type = "float" then (float? content).map real
  else if type = "null" then
    if content ∈ ["~", "null", "Null", "NULL"] then some null else none
  else some (text content)

/-- The meaning of a scalar with the tag that it was given, if any. -/
def ofTaggedScalar? (tag : Option String) (content : String) (plain : Bool) : Option Tree :=
  match tag with
  | none => ofScalar? content plain
  | some given =>
    match ownTag? given with
    | some _ => do
      let tree ← ofScalar? content plain
      label? tag tree
    | none =>
      let chars := given.toList
      if sharedTagStart.isPrefixOf chars then
        ofType? (String.ofList (chars.drop sharedTagStart.length)) content
      else some (text content)

/-- Whether reals are the same key: numbers as they compare, and all that are no numbers. -/
def sameReal (left right : Float) : Bool := left == right || (left.isNaN && right.isNaN)

mutual

/-- Whether two trees are the same key. The order of a mapping's entries does not matter. -/
def same : Tree → Tree → Bool
  | null, null => true
  | boolean left, boolean right => left = right
  | integer left, integer right => left = right
  | real left, real right => sameReal left right
  | text left, text right => left = right
  | sequence left, sequence right => sameItems left right
  | mapping left, mapping right => left.length = right.length && sameEntries left right
  | tagged left content, tagged right other => left = right && same content other
  | _, _ => false

/-- Whether items are the same keys in pairs. -/
def sameItems : List Tree → List Tree → Bool
  | [], [] => true
  | left :: lefts, right :: rights => same left right && sameItems lefts rights
  | _, _ => false

/-- Whether every entry is among others. -/
def sameEntries : List (Tree × Tree) → List (Tree × Tree) → Bool
  | [], _ => true
  | (key, value) :: rest, others =>
    others.any (fun (other, held) => same key other && same value held) && sameEntries rest others

end

/-- Whether keys repeat. -/
def hasRepeatedKey : List (Tree × Tree) → Bool
  | [] => false
  | (key, _) :: rest => rest.any (fun (other, _) => same key other) || hasRepeatedKey rest

/-- The meaning of a node whose collections are nested at most `depth` deep. -/
def ofNode? : (depth : Nat) → Node → Option Tree
  | _, .scalar tag content plain => ofTaggedScalar? tag content plain
  | 0, _ => none
  | depth + 1, .sequence tag items => do
    let trees ← items.mapM (ofNode? depth)
    label? tag (sequence trees)
  | depth + 1, .mapping tag entries => do
    let pairs ← entries.mapM fun (key, value) => do
      let keyTree ← ofNode? depth key
      let valueTree ← ofNode? depth value
      return (keyTree, valueTree)
    if hasRepeatedKey pairs then none else label? tag (mapping pairs)

/-- How deep collections may be nested in a document. -/
def depthLimit : Nat := 128

/-- What a tree means to those that do not ask for its tag. -/
def untag : Tree → Tree
  | tagged _ content => untag content
  | tree => tree

mutual

/-- Whether a tree or a part of it has a tag. -/
def hasTag : Tree → Bool
  | sequence items => itemsHaveTag items
  | mapping entries => entriesHaveTag entries
  | tagged _ _ => true
  | _ => false

/-- Whether one of several items has a tag. -/
def itemsHaveTag : List Tree → Bool
  | [] => false
  | item :: rest => hasTag item || itemsHaveTag rest

/-- Whether a key or a value of one of several entries has a tag. -/
def entriesHaveTag : List (Tree × Tree) → Bool
  | [] => false
  | (key, value) :: rest => hasTag key || hasTag value || entriesHaveTag rest

end

end Tree

end TimedCommands.Yaml
