import Gherkin.Error

/-!
# Sources

A source is read line by line.  Text that is at hand is split into lines; bytes may come in pieces
of any size, and reading them may fail.  A line that is not valid UTF-8 cannot be read, and a
failure loses what had been read of its line.
-/

namespace Gherkin

/-- A line without its terminator, or the reason why it could not be read. -/
inductive LineRead where
  | line (chars : List Char)
  | fault (fault : ReadFault)
deriving DecidableEq

/-- A piece of a source of bytes. -/
inductive Piece where
  | bytes (bytes : List UInt8)
  | failure (message : String)

/-- A byte, or a failure in the place of one. -/
inductive Item where
  | byte (byte : UInt8)
  | failure (message : String)

/-- The bytes of a piece one by one. -/
def Piece.items : Piece → List Item
  | bytes bs => bs.map .byte
  | failure message => [.failure message]

/-- The text of a line without the carriage return in front of its line feed. -/
def dropReturn (cs : List Char) : List Char :=
  if cs.getLast? = some '\r' then cs.dropLast else cs

/-- The lines of a text.  The last one needs no line feed, and then keeps a carriage return. -/
def textLines (cs : List Char) : List (List Char) :=
  let pieces := cs.splitOn '\n'
  pieces.dropLast.map dropReturn ++ pieces.getLast?.toList.filter fun last => !last.isEmpty

/-- Decodes the bytes of a line, which may have ended in a line feed. -/
def LineRead.ofBytes (bytes : List UInt8) (terminated : Bool) : LineRead :=
  match String.fromUTF8? bytes.toByteArray with
  | some s => .line (if terminated then dropReturn s.toList else s.toList)
  | none => .fault .invalidText

/-- All that is read from a source, line by line. -/
abbrev Source :=
  List LineRead

namespace Source

/-- The lines of a text can all be read. -/
def ofText (text : String) : Source :=
  (textLines text.toList).map .line

/-- Reads lines, where `taken` holds the bytes of the current line in reverse order. -/
def ofItems (taken : List UInt8) : List Item → Source
  | [] => if taken.isEmpty then [] else [.ofBytes taken.reverse false]
  | .failure message :: items => .fault (.source message) :: ofItems [] items
  | .byte b :: items =>
    if b = 10 then .ofBytes taken.reverse true :: ofItems [] items
    else ofItems (b :: taken) items

/-- Pieces are read as one stream: where one ends and the next begins is not seen. -/
def ofPieces (pieces : List Piece) : Source :=
  ofItems [] (pieces.flatMap Piece.items)

/-- Bytes that come in one piece. -/
def ofBytes (bytes : List UInt8) : Source :=
  ofPieces [.bytes bytes]

end Source
end Gherkin
