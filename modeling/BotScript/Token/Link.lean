import BotScript.Token.Scan

namespace BotScript

/-!
# Linked tokens

The tokens of a list are linked by position: each one knows the token before it
and the token behind it.  A text is put together again along these links.
-/

/-- The neighbours of a token in its list. -/
structure Link where
  previous : Option UInt32
  next : Option UInt32
  deriving Repr, DecidableEq, Inhabited

namespace Link

/-- The links of a list with one more token behind its last one. -/
def append (links : Array Link) : Array Link :=
  let index := UInt32.ofNat links.size
  let linked := links.modify (links.size - 1) fun last => { last with next := some index }
  linked.push ⟨if links.isEmpty then none else some (index - 1), none⟩

/-- The links of a list with a number of tokens. -/
def ofCount : Nat → Array Link
  | 0 => #[]
  | count + 1 => append (ofCount count)

/-- The positions that a walk in one direction meets within a number of steps. -/
def walk (links : Array Link) (direction : Link → Option UInt32) :
    Nat → Option UInt32 → List UInt32
  | 0, _ => []
  | _ + 1, none => []
  | bound + 1, some index =>
      index :: walk links direction bound ((links[index.toNat]?).bind direction)

end Link

/-- The offset at which the separator behind a token ends. -/
def Token.separatorEnd (token : Token) : UInt32 :=
  Word.ofNat (token.span.stop.toNat + token.separator.utf8ByteSize)

namespace TokenList

/-- The offset at which the leading separator ends. -/
def leadingEnd (list : TokenList) : UInt32 :=
  Word.ofNat list.leading.utf8ByteSize

/-- The links of the tokens. -/
def links (list : TokenList) : Array Link :=
  Link.ofCount list.size

/-- The position of the first token, if there is one. -/
def first? (list : TokenList) : Option UInt32 :=
  if list.tokens.isEmpty then none else some 0

/-- The position of the last token, which marks the end. -/
def last (list : TokenList) : UInt32 :=
  UInt32.ofNat (list.size - 1)

/-- The positions of the tokens along the links; a walk never needs more steps than there are tokens. -/
def positions (list : TokenList) : List UInt32 :=
  Link.walk list.links Link.next list.size list.first?

/-- A text followed by the token at a position and its separator. -/
def appendToken (list : TokenList) (text : String) (index : UInt32) : String :=
  match list.tokens[index.toNat]? with
  | some token => text ++ token.text ++ token.separator
  | none => text

/-- The leading separator, the token texts and the separators behind them, joined along the links. -/
def reconstruct (list : TokenList) : String :=
  list.positions.foldl list.appendToken list.leading

end TokenList

end BotScript
