import BotScript.Compile.Program
import BotScript.Host.MemoryFiles
import BotScript.Host.Standard
import BotScript.Machine.Run

namespace BotScript

/-!
# Programs spelled token by token

Small programs for concrete runs, given by their tokens, on the standard
library and a host without files.
-/

namespace Spelled

/-- A token as it is in a program. -/
def word (kind : TokenKind) (text : String) : Token :=
  ⟨kind, text, Span.none, ""⟩

/-- A keyword or an operator as it is in a program. -/
def mark (symbol : Symbol) : Token :=
  word (.symbol symbol) ""

/-- A name as it is in a program. -/
def name (text : String) : Token :=
  word .identifier text

/-- The tokens of a program, with the end of its text behind them. -/
def program (tokens : List Token) : TokenList where
  source := ""
  leading := ""
  tokens := (tokens ++ [word .endOfText ""]).toArray

/-- A compiled program on the standard library. -/
def setting (tokens : TokenList) : Setting where
  tree := (compile .standard tokens).toOption.getD default
  registry := .standard
  callDepth := 10

/-- The tree of a setting is that of its program if the program is accepted. -/
theorem setting_accepted
    {tokens : TokenList}
    (accepted : (compile .standard tokens).isOk = true) :
    compile (setting tokens).registry tokens = .ok (setting tokens).tree := by
  change compile .standard tokens = .ok ((compile .standard tokens).toOption.getD default)
  cases result : compile .standard tokens with
  | error error => simp [result, Except.isOk, Except.toBool] at accepted
  | ok tree => rfl

/-- The machine of an entry at its start. -/
def started (tokens : TokenList) (entry : FuncId) : Machine :=
  .start (setting tokens) entry { files := .inMemory default }

end Spelled

end BotScript
