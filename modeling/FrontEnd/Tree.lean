import FrontEnd.Precedence

/-!
# Syntax trees

* `Expression` — an expression, in the form in which the grammar groups it.
* `FunctionDecl`, `Item` — the declarations: a function, or a module of further declarations.
* `Program` — the declarations of a source, in order.
-/

namespace FrontEnd

/-- A variable introduced by `let` or `var`.  Without a type name its type is left to inference. -/
structure VariableDecl where
  name : String
  typeName : Option String
  isMutable : Bool
deriving DecidableEq, Repr

def VariableDecl.isInferred (d : VariableDecl) : Bool := d.typeName.isNone

inductive Expression
  /-- an expression in braces -/
  | block (inner : Expression)
  /-- one expression, then another -/
  | sequence (first next : Expression)
  | declaration (d : VariableDecl)
  | binary (op : BinaryOperator) (left right : Expression)
  | identifier (name : String)
  | number (text : String)
  | string (text : String)
  | char (text : String)
  /-- a place for an expression at which none stands -/
  | empty
deriving DecidableEq, Repr

def Expression.isEmpty : Expression → Bool
  | empty => true
  | _ => false

structure Argument where
  name : String
  typeName : String
deriving DecidableEq, Repr

/-- A function; its body is the expression between the braces. -/
structure FunctionDecl where
  name : String
  arguments : List Argument
  returnType : String
  body : Expression
deriving DecidableEq, Repr

inductive Item
  | module (name : String) (items : List Item)
  | function (f : FunctionDecl)
deriving Repr

mutual

def Item.decEq : (a b : Item) → Decidable (a = b)
  | .module m is, .module n js =>
    match decEq m n, decEqItems is js with
    | isTrue h, isTrue h' => isTrue (by rw [h, h'])
    | isFalse h, _ => isFalse (by intro e; injection e; contradiction)
    | _, isFalse h => isFalse (by intro e; injection e; contradiction)
  | .function f, .function g =>
    match decEq f g with
    | isTrue h => isTrue (by rw [h])
    | isFalse h => isFalse (by intro e; injection e; contradiction)
  | .module _ _, .function _ => isFalse (by intro e; injection e)
  | .function _, .module _ _ => isFalse (by intro e; injection e)

def decEqItems : (a b : List Item) → Decidable (a = b)
  | [], [] => isTrue rfl
  | i :: is, j :: js =>
    match Item.decEq i j, decEqItems is js with
    | isTrue h, isTrue h' => isTrue (by rw [h, h'])
    | isFalse h, _ => isFalse (by intro e; injection e; contradiction)
    | _, isFalse h => isFalse (by intro e; injection e; contradiction)
  | [], _ :: _ => isFalse (by intro e; injection e)
  | _ :: _, [] => isFalse (by intro e; injection e)

end

instance : DecidableEq Item := Item.decEq

/-- The declarations of a source. -/
abbrev Program := List Item

end FrontEnd
