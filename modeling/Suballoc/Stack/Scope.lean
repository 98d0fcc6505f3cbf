import Suballoc.Stack

/-!
# Scopes

A scope is a bracket around work on a stack: it remembers the cursor at its opening, and its end
rewinds to it. Scopes nest, and only the innermost one is used or ended. The stack and the markers
of its open scopes, innermost first, are one value here, so that a program of nested brackets is a
sequence of operations on it.
-/

namespace Suballoc

/-- A stack with its open scopes. -/
structure ScopedStack where
  stack : Stack
  /-- Where the open scopes began, innermost first. -/
  scopes : List Marker

namespace ScopedStack

/-- A stack without an open scope. -/
def ofStack (stack : Stack) : ScopedStack := { stack, scopes := [] }

/-- Do something to the stack inside the innermost scope. -/
def within {Answer : Type} (call : Call Stack Answer) : Call ScopedStack Answer :=
  fun ⟨stack, scopes⟩ ↦
    match call stack with
    | .ok answer stack => .ok answer ⟨stack, scopes⟩
    | .error fault stack => .error fault ⟨stack, scopes⟩

/-- Open a scope; the answer is where it began. -/
def openScope : Call ScopedStack Marker := do
  let marker := (← get).stack.mark
  modify fun state ↦ { state with scopes := marker :: state.scopes }
  return marker

/-- End the innermost scope. -/
def endScope? (state : ScopedStack) : Option ScopedStack :=
  match state.scopes with
  | [] => none
  | marker :: outer => some { stack := state.stack.close marker, scopes := outer }

/-- End every open scope, innermost first. -/
def endAll (state : ScopedStack) : Stack := state.scopes.foldl Stack.close state.stack

end ScopedStack

end Suballoc
