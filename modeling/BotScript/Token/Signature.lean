import BotScript.Checksum
import BotScript.Token.Link

namespace BotScript

/-!
# Token signatures

The signature of a range of tokens is the checksum of their texts with one
space between neighbours, so that blanks and comments do not change it.  The
texts are read along the links of the tokens, so that no joined text is built.
-/

namespace TokenList

/--
The token texts of a range whose ends are both included.  A range whose last
index lies before its first one reaches to the end of the list.
-/
def textsBetween (list : TokenList) (first last : Nat) : List String :=
  let tokens := list.tokens.toList.drop first
  let range := if first ≤ last then tokens.take (last + 1 - first) else tokens
  range.map (·.text)

/-- The text of the token at a position; behind the last token there is none. -/
def textAt (list : TokenList) (index : Nat) : String :=
  match list.tokens[index]? with
  | some token => token.text
  | none => ""

/--
Read token texts into a checksum register along the links, up to a last
position or to the end of the list.  There is a space in front of every text but
the first one, and a walk never needs more steps than there are tokens.
-/
def readTexts (list : TokenList) (links : Array Link) (last : Nat) :
    Nat → Option Nat → Bool → UInt32 → UInt32
  | 0, _, _, register => register
  | _ + 1, none, _, register => register
  | bound + 1, some index, started, register =>
      let spaced := if started then Crc32.readText register " " else register
      let read := Crc32.readText spaced (list.textAt index)
      if index == last then read
      else
        readTexts list links last bound ((links[index]?.bind Link.next).map UInt32.toNat) true read

/-- The signature of the tokens from one index to another, both included. -/
def signature (list : TokenList) (first last : Nat) : UInt32 :=
  list.readTexts list.links last list.size (some first) false 0xFFFFFFFF ^^^ 0xFFFFFFFF

/-- The signature of all tokens. -/
def wholeSignature (list : TokenList) : UInt32 :=
  list.signature 0 (list.size - 1)

end TokenList

end BotScript
