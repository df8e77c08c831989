/-!
# Positions in a text

The length of a text in bytes, and the line and the column behind some of its bytes.
-/

namespace TypeGraph.Text

/-- The bytes that characters take in UTF-8. -/
def byteLength (text : List Char) : Nat :=
  text.foldr (fun c bytes => c.utf8Size + bytes) 0

/-- The line of a position, counted from one, and the bytes in front of it in that line. -/
structure Position where
  line : Nat
  column : Nat
deriving DecidableEq, Repr

/-- The byte that ends a line. -/
def lineFeed : UInt8 :=
  10

/-- The position behind the first `count` bytes of a text. -/
def Position.behind (count : Nat) (text : String) : Position :=
  let passed := (text.toList.flatMap String.utf8EncodeChar).take count
  ⟨passed.count lineFeed + 1, (passed.reverse.takeWhile (· != lineFeed)).length⟩

example : Position.behind 4 "a\nbé" = ⟨2, 2⟩ := by decide

end TypeGraph.Text
