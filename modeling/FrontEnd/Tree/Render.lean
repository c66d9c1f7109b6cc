import FrontEnd.Tree
import FrontEnd.Text.Quoted

/-!
# The text form of a syntax tree

* `Expression.render`, `Item.render`, `Program.render` — a tree written in the language it was read
  from, with every binary expression in parentheses and `()` for the empty expression.
-/

namespace FrontEnd

/-- Texts one after the other, with a separator between them. -/
def joinWith (separator : String) : List String → String
  | [] => ""
  | [text] => text
  | text :: rest => text ++ separator ++ joinWith separator rest

def VariableDecl.render (d : VariableDecl) : String :=
  let start := (if d.isMutable then "var " else "let ") ++ d.name
  match d.typeName with
  | some typeName => start ++ ": " ++ typeName
  | none => start

def Expression.render : Expression → String
  | block inner => "\x7b " ++ inner.render ++ " \x7d"
  | sequence first next => first.render ++ "; " ++ next.render
  | declaration d => d.render
  | binary op left right => "(" ++ left.render ++ " " ++ op.text ++ " " ++ right.render ++ ")"
  | identifier name => name
  | number text => text
  | string text => quotedString text
  | char text => quotedChar text
  | empty => "()"

def Argument.render (a : Argument) : String := a.name ++ ": " ++ a.typeName

def FunctionDecl.render (f : FunctionDecl) : String :=
  "fn " ++ f.name ++ "(" ++ joinWith ", " (f.arguments.map Argument.render) ++ ") -> "
    ++ f.returnType ++ " " ++ (Expression.block f.body).render

mutual

def Item.render : Item → String
  | .module name items =>
    "module " ++ name ++ " \x7b " ++ joinWith " " (renderItems items) ++ " \x7d"
  | .function f => f.render

/-- Each declaration on its own. -/
def renderItems : List Item → List String
  | [] => []
  | item :: rest => item.render :: renderItems rest

end

def Program.render (p : Program) : String := joinWith "\n" (renderItems p)

end FrontEnd
