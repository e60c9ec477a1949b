import Tinox.Syntax.Ast

/-!
# LLVM types

The LLVM types of values and the translation of source types.
-/

namespace Tinox.Codegen

open Tinox.Syntax

/-- The LLVM types that the generator writes. -/
inductive LlvmType where
  | i1 | i8 | i16 | i32 | i64 | float | double | void
  | ptr (target : LlvmType)
  deriving DecidableEq, Repr

namespace LlvmType

/-- The text of a type. -/
def text : LlvmType → String
  | .i1 => "i1"
  | .i8 => "i8"
  | .i16 => "i16"
  | .i32 => "i32"
  | .i64 => "i64"
  | .float => "float"
  | .double => "double"
  | .void => "void"
  | .ptr target => target.text ++ "*"

/-- `i8*`, the type of texts and maps. -/
abbrev bytes : LlvmType := .ptr .i8

/-- `i64*`, the type of objects. -/
abbrev words : LlvmType := .ptr .i64

end LlvmType

/-- `type_to_llvm`. -/
def typeToLlvm : Ty → LlvmType
  | .int8 | .uint8 => .i8
  | .int16 | .uint16 => .i16
  | .int32 | .uint32 => .i32
  | .int64 | .uint64 => .i64
  | .float32 => .float
  | .float64 => .double
  | .bool => .i1
  | .char => .i32
  | .string => .bytes
  | .nothing => .void
  | .named _ => .words
  | .generic name args =>
      if name = "Array" then
        match args with
        | [] => .words
        | arg :: _ => .ptr (typeToLlvm arg)
      else if name = "Channel" then .i64
      else .words
  | .ref inner => .ptr (typeToLlvm inner)
  | .mutable inner => typeToLlvm inner
  | .array inner => .ptr (typeToLlvm inner)
  | .map _ _ => .bytes
  | .tuple _ => .words
  | .nullable inner => typeToLlvm inner
  | _ => .i64

/-- `type_to_llvm_inst`: enumerations are numbers. -/
def typeToLlvmInst (enums : List Ident) : Ty → LlvmType
  | .named name => if enums.contains name then .i64 else .words
  | type => typeToLlvm type

end Tinox.Codegen
