import BotScript.Tree.Item

namespace BotScript

/-!
# Statements that always leave their function

A function with a result must not run off its end.  A jump out of the function
leaves it; a block leaves it when one of its statements does, a branch when
both sides do, and a guarded statement when its body and all its handlers do, or
its final block does.  Loops never count.
-/

namespace Tree

/-- Whether a statement nested no deeper than a bound always leaves its function. -/
def leavesWithin (tree : Tree) : Nat → StmtId → Bool
  | 0, _ => false
  | bound + 1, id =>
      match (tree.stmt id).kind with
      | .returnWith _ | .throwCode _ => true
      | .block statements => statements.any fun part => tree.leavesWithin bound part
      | .branch _ whenTrue (some whenFalse) =>
          tree.leavesWithin bound whenTrue && tree.leavesWithin bound whenFalse
      | .guarded body clauses final =>
          (body.any (fun part => tree.leavesWithin bound part)
              && clauses.all fun clause => tree.leavesWithin bound clause.body)
            || (match final with
                | some part => tree.leavesWithin bound part
                | none => false)
      | _ => false

/-- Whether a statement always leaves its function. -/
def alwaysLeaves (tree : Tree) (id : StmtId) : Bool :=
  tree.leavesWithin tree.stmts.size id

end Tree

end BotScript
