import Hypertext.Text.Case
import Hypertext.Text.Cluster

set_option autoImplicit false

/-! # Camel case

A name such as `main-header` or `HTMLParser2` is cut into words and put together as
`mainHeader` or `htmlParser2`. Words end at hyphens, underscores and spaces, which vanish, and
where the kind of cluster changes. -/

namespace Hypertext
namespace Text

/-- A cluster with an uppercase form of its own and written in it. -/
def isUpperCluster (t : Text) : Bool := t.uppercase != t.lowercase && t == t.uppercase

/-- A cluster with a lowercase form of its own and written in it. -/
def isLowerCluster (t : Text) : Bool := t.uppercase != t.lowercase && t == t.lowercase

/-- A cluster of ASCII digits. -/
def isDigitCluster (t : Text) : Bool := t.all Char.isDigit

/-- The clusters that separate words. -/
def isWordSeparator (t : Text) : Bool := t == ['-'] || t == ['_'] || t == [' ']

/-- Whether a word ends between two neighbouring clusters. -/
def changesKind (a b : Text) : Bool :=
  (isLowerCluster a && isUpperCluster b) || (isUpperCluster a && isDigitCluster b)
    || (isDigitCluster a && isUpperCluster b) || (isDigitCluster a && isLowerCluster b)
    || (isLowerCluster a && isDigitCluster b)

/-- Whether a word ends between the first two of three neighbouring clusters: the last capital of
an acronym begins the next word. -/
def endsAcronym (a b : Text) : List Text → Bool
  | [] => false
  | c :: _ => isUpperCluster a && isUpperCluster b && isLowerCluster c

/-- The words of a list of clusters, where `last` is the cluster before it and `word` the characters
of the word begun so far. Empty words are kept. -/
def splitWords (last : Option Text) (word : Text) : List Text → List Text
  | [] => [word]
  | b :: rest =>
    if isWordSeparator b then word :: splitWords (some b) [] rest
    else if last.any fun a => changesKind a b || endsAcronym a b rest then
      word :: splitWords (some b) b rest
    else splitWords (some b) (word ++ b) rest

/-- The words of a text. -/
def camelWords (t : Text) : List Text :=
  (splitWords none [] t.clusters).filter fun word => !word.isEmpty

/-- A word with its first character in uppercase and the others in lowercase. -/
def capitalize : Text → Text
  | [] => []
  | c :: t => uppercaseChar c ++ lowercase t

/-- The words of a text run together, the first in lowercase and the others capitalized. -/
def camelCase (t : Text) : Text :=
  match t.camelWords with
  | [] => []
  | first :: others => first.lowercase ++ others.flatMap capitalize

end Text
end Hypertext
