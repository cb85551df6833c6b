import FilterQuery.Reading.ParseError

/-!
Cursors: a text with a place in it. The characters before the place are kept nearest first, so that
moving on is cheap and no place lies inside a character. Saving a place means to keep the cursor.
-/

namespace FilterQuery

structure Cursor where
  /-- The characters already read, the last one first. -/
  past : List Char
  /-- The characters still to read. -/
  rest : List Char
  /-- A dot continues an identifier. -/
  dotted : Bool
  deriving DecidableEq

namespace Cursor

def ofString (text : String) (dotted : Bool) : Cursor :=
  ⟨[], text.toList, dotted⟩

/-- The whole text. -/
def input (c : Cursor) : List Char :=
  c.past.reverse ++ c.rest

/-- The place, in bytes from the start of the text. -/
def pos (c : Cursor) : Nat :=
  byteLength c.past

def restText (c : Cursor) : String :=
  String.ofList c.rest

def atEnd (c : Cursor) : Bool :=
  c.rest.isEmpty

def peek? (c : Cursor) : Option Char :=
  c.rest.head?

def peekNext? (c : Cursor) : Option Char :=
  c.rest.tail.head?

/-- Moves over `n` characters, or to the end of the text. -/
def move (c : Cursor) (n : Nat) : Cursor :=
  { c with past := (c.rest.take n).reverse ++ c.past, rest := c.rest.drop n }

/-- The place `pos` bytes into the text, if it is a place between characters. -/
def seek? (c : Cursor) (pos : Nat) : Option Cursor :=
  (cutAt? pos c.input).map fun (before, after) => { c with past := before.reverse, rest := after }

/-- The text from `start` on; none if `start` is no place between characters. -/
def residual (c : Cursor) (start : Nat) : String :=
  match c.seek? start with
  | some d => d.restText
  | none => ""

def spanFrom (c : Cursor) (start : Nat) : Span :=
  ⟨start, c.pos⟩

/-- An error over what was read since `start`. -/
def errorFrom (c : Cursor) (cause : Cause) (start : Nat) : ParseError :=
  ⟨cause, c.spanFrom start, c.residual start⟩

/-- An error over what was read since the cursor `start` on the same text. -/
def errorSince (c start : Cursor) (cause : Cause) : ParseError :=
  ⟨cause, ⟨start.pos, c.pos⟩, start.restText⟩

/-- An error at the place itself. -/
def errorHere (c : Cursor) (cause : Cause) : ParseError :=
  c.errorSince c cause

def unexpected (c : Cursor) (what : Expectation) : ParseError :=
  c.errorHere (.expected what)

/-- Moves over the longest run of characters that satisfy `p`. -/
def skipWhile (c : Cursor) (p : Char → Bool) : Cursor :=
  c.move (c.rest.takeWhile p).length

def skipBlanks (c : Cursor) : Cursor :=
  c.skipWhile isBlank

/-- Moves over `symbol`, if the text goes on with it. -/
def eat? (c : Cursor) (symbol : String) : Option Cursor :=
  if symbol.toList.isPrefixOf c.rest then some (c.move symbol.toList.length) else none

/-- The character continues an identifier that stands before it. -/
def continuesWord (c : Cursor) (x : Char) : Bool :=
  isWordChar x || (c.dotted && x == '.')

/-- Moves over `word`, if it stands here and no longer identifier does. -/
def eatWord? (c : Cursor) (word : String) : Option Cursor :=
  (c.eat? word).filter fun d => !d.peek?.any d.continuesWord

/-- Moves over the words, with blanks between them. -/
def eatWords? (c : Cursor) : List String → Option Cursor
  | [] => some c
  | [word] => c.eatWord? word
  | word :: next :: words =>
    match c.eatWord? word with
    | some d => if d.peek?.any isBlank then d.skipBlanks.eatWords? (next :: words) else none
    | none => none

def eatKeyword? (c : Cursor) (k : Keyword) : Option Cursor :=
  c.eatWords? k.words

/-- The character before the place would run together with a word that starts here. -/
def afterWord (c : Cursor) : Bool :=
  c.past.head?.any fun x => isWordChar x || x == '\''

/-- Moves over blanks and a keyword. The blanks are optional only where the character before them
ends no word and no string. -/
def eatSpacedKeyword? (c : Cursor) (k : Keyword) : Option Cursor :=
  if !c.peek?.any isBlank && c.afterWord then none else c.skipBlanks.eatKeyword? k

/-- Moves over one character. -/
def next? (c : Cursor) : Option (Char × Cursor) :=
  c.peek?.map fun x => (x, c.move 1)

end Cursor

end FilterQuery
