/-!
Message templates. A pair of braces stands for the next argument; a doubled brace stands for itself.
-/

namespace Treewalk.Text

/-- Fills a template. A pair of braces with no argument left, and a brace that is neither doubled nor
paired, stay as they are; arguments left over are not used. -/
def fillTemplate : List Char → List String → List Char
  | '\x7b' :: '\x7b' :: rest, args => '\x7b' :: fillTemplate rest args
  | '\x7d' :: '\x7d' :: rest, args => '\x7d' :: fillTemplate rest args
  | '\x7b' :: '\x7d' :: rest, arg :: args => arg.toList ++ fillTemplate rest args
  | c :: rest, args => c :: fillTemplate rest args
  | [], _ => []

end Treewalk.Text
