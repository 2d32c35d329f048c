namespace BotScript

/-!
# Words

Positions and identifiers are stored as 32-bit words.
-/

/-- A natural number as a 32-bit word; larger numbers become the largest word. -/
def Word.ofNat (value : Nat) : UInt32 :=
  if value < UInt32.size then UInt32.ofNat value else UInt32.ofNat (UInt32.size - 1)

end BotScript
