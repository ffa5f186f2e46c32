/-!
# Keywords

Frequent clauses and sums have names. `expand` replaces every keyword that stands as a whole word by its expansion and
leaves all else as it is. The edge keywords of two letters read subject minus object, those of one letter object minus
subject.
-/

namespace RectLayout.Keyword

/-- The keywords with their expansions. Stored constraints depend on this table. -/
def table : List (String × String) :=
  [("xcenter", "sx1+sx2=ox1+ox2"), ("ycenter", "sy1+sy2=oy1+oy2"), ("center", "sx1+sx2=ox1+ox2,sy1+sy2=oy1+oy2"),
    ("left", "sx1=ox1"), ("right", "sx2=ox2"), ("top", "sy2=oy2"), ("bottom", "sy1=oy1"),
    ("swidth", "sx2-sx1"), ("sheight", "sy2-sy1"), ("owidth", "ox2-ox1"), ("oheight", "oy2-oy1"),
    ("width", "x2-x1"), ("height", "y2-y1"),
    ("sx", "sx1"), ("sy", "sy1"), ("ox", "ox1"), ("oy", "oy1"),
    ("ll_edge", "sx1-ox1"), ("lr_edge", "sx1-ox2"), ("rl_edge", "sx2-ox1"), ("rr_edge", "sx2-ox2"),
    ("bb_edge", "sy1-oy1"), ("bt_edge", "sy1-oy2"), ("tb_edge", "sy2-oy1"), ("tt_edge", "sy2-oy2"),
    ("l_edge", "ox1-sx1"), ("r_edge", "ox2-sx2"), ("t_edge", "oy2-sy2"), ("b_edge", "oy1-sy1")]

/-- The expansion of a keyword. -/
def lookup (word : String) : Option String := table.lookup word

/-- Words are made of the letters and digits of ASCII and of underscores. -/
def isWordChar (c : Char) : Bool := c.isAlphanum || c == '_'

/-- What a complete word becomes. -/
def replaceWord (word : List Char) : List Char :=
  match lookup (String.ofList word) with
  | some expansion => expansion.toList
  | none => word

/-- The expansion of a text that goes on inside a word, of which the characters `word` have been read. -/
def expandFrom (word : List Char) : List Char → List Char
  | [] => replaceWord word
  | c :: cs => if isWordChar c then expandFrom (word ++ [c]) cs else replaceWord word ++ c :: expandFrom [] cs

/-- The text with every keyword replaced by its expansion. -/
def expand (text : String) : String := String.ofList (expandFrom [] text.toList)

end RectLayout.Keyword
