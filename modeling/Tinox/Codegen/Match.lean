import Tinox.Codegen.Variants
import Tinox.Search.FirstMatch

/-!
# Match expressions

The code that is emitted for the arms of a match, run on the machine, against
the first arm that matches the value and whose guard is true.
-/

namespace Tinox.Codegen.Match

open Tinox.Syntax Variants
open Variants.Registry (Declares)

/-- Values.  Those that no pattern looks into are bits. -/
inductive Value where
  | int (value : Int)
  | bool (value : Bool)
  | text (value : String)
  /-- A variant with the declared types of its components and the components. -/
  | variant (enumName name : Ident) (types : List Ty) (args : List Value)
  | other (bits : Word)
  deriving Inhabited

/-- The memory at the time of the match. -/
structure Memory where
  load : Word → Option Word
  text : Word → Option String

/-- The number of bits of a value of this type in a word. -/
def bits : LlvmType → Nat
  | .i1 => 1
  | .i8 => 8
  | .i16 => 16
  | .i32 | .float => 32
  | _ => 64

/-- The word of a number of so many bits. -/
def numberWord (width : Nat) (number : Int) : Word :=
  (BitVec.ofInt width number).setWidth 64

mutual

/-- The word stands for the value, numbers having so many bits. -/
def Holds (mem : Memory) (width : Nat) (word : Word) : Value → Prop
  | .int n => word = numberWord width n
  | .bool b => word = if b then 1#64 else 0#64
  | .text s => 65535 < word.toNat ∧ mem.text word = some s
  | .variant enumName name _ [] => word = enumDiscriminatorNoarg (enumName ++ "::" ++ name)
  | .variant enumName name _ (arg :: args) =>
      65535 < word.toNat ∧ mem.load word = some (enumDiscriminator (enumName ++ "::" ++ name)) ∧
        HoldsFrom mem (word + 8#64) (arg :: args)
  | .other bits => word = bits

/-- The words from this address on stand for the values. -/
def HoldsFrom (mem : Memory) (address : Word) : List Value → Prop
  | [] => True
  | value :: values =>
      (∃ word, mem.load address = some word ∧ Holds mem 64 word value) ∧
        HoldsFrom mem (address + 8#64) values

end

/-- What the generator knows of the scrutinee: its LLVM type, whether it is
written as a number, and the name of its type if the checker found it. -/
structure Scrutinee where
  type : LlvmType
  constant : Bool
  enumName : Option Ident

namespace Scrutinee

/-- The scrutinee is a pointer. -/
def isPointer (s : Scrutinee) : Bool :=
  match s.type with
  | .ptr _ => true
  | _ => false

/-- The scrutinee has a type of numbers. -/
def isNumber (s : Scrutinee) : Bool :=
  match s.type with
  | .i1 | .i8 | .i16 | .i32 | .i64 => true
  | _ => false

/-- The scrutinee may be written where an `i64` is expected. -/
def readsWord (s : Scrutinee) : Bool :=
  s.isPointer || s.type = .i64 || s.constant

/-- The word of the scrutinee stands for the value, at a type of such values. -/
def Represents (s : Scrutinee) (mem : Memory) (word : Word) (value : Value) : Prop :=
  Holds mem (bits s.type) word value ∧
    match value with
    | .int _ => s.isNumber = true ∧ s.type ≠ .i1
    | .bool _ => s.type = .i1
    | .text _ => s.type = .bytes
    | .variant .. => s.isPointer = true ∨ s.type = .i64
    | .other _ => False

end Scrutinee

/-- A variable that an arm binds: its slot and the word in it. -/
structure Slot where
  name : Ident
  type : LlvmType
  word : Word

/-- The code of one arm. -/
inductive ArmCode where
  /-- Nothing is emitted. -/
  | skip
  /-- The body, perhaps with the scrutinee in a slot. -/
  | always (name : Option Ident)
  /-- `icmp eq` with a number of the scrutinee's type. -/
  | equalsNumber (number : Int)
  /-- `icmp eq` with the address of a new constant. -/
  | equalsText
  /-- `icmp eq i64` with the number of a variant. -/
  | equalsVariant (discriminator : Word)
  /-- Above 65535, `icmp eq i64` of the word there with the number of a variant,
  then the payloads to load: index, name and type of the slot. -/
  | equalsBlock (discriminator : Word) (payloads : List (Nat × Ident × LlvmType))

/-- The text of a literal as a number (`gen_literal`). -/
def literalNumber : Literal → Option Int
  | .integer n => some n
  | .bool b => some (if b then 1 else 0)
  | .char c => some c.toNat
  | .byte b => some b.toNat
  | .null => some 0
  | .float _ | .string _ => none

/-- The test for a literal; `none` where LLVM rejects the comparison. -/
def genLiteral (s : Scrutinee) : Literal → Option ArmCode
  | .float _ => none
  | .string _ => if s.isPointer then some .equalsText else none
  | lit =>
      if s.isNumber then (literalNumber lit).map .equalsNumber else none

/-- The payloads that a pattern binds, from this index on. -/
def genPayloads (r : Registry) (discName : Ident) : Nat → List Pattern →
    List (Nat × Ident × LlvmType)
  | _, [] => []
  | i, .ident name _ :: args =>
      (i, name, payloadType (r.kindAt discName i)) :: genPayloads r discName (i + 1) args
  | i, _ :: args => genPayloads r discName (i + 1) args

/-- The name of the variant that a payload pattern is for (`disc_name`). -/
def discName (enumName variant : Ident) : Ident :=
  if variant.isEmpty then enumName else variant

/-- The text behind that variant's number (`disc_key`). -/
def discKey (r : Registry) (s : Scrutinee) (enumName variant : Ident) : String :=
  r.variantDiscriminatorKey (if variant.isEmpty then s.enumName else some enumName)
    (discName enumName variant)

/-- The code for one pattern; `none` where LLVM rejects it. -/
def genPattern (r : Registry) (s : Scrutinee) : Pattern → Option ArmCode
  | .wildcard => some (.always none)
  | .literal lit => genLiteral s lit
  | .ident name _ =>
      if r.known.contains name then
        if s.readsWord then
          some (.equalsVariant
            (enumDiscriminatorNoarg (r.variantDiscriminatorKey s.enumName name)))
        else none
      else some (.always (some name))
  | .enumVariant enumName variant args =>
      if s.readsWord then
        some (if args.isEmpty then
            .equalsVariant (enumDiscriminatorNoarg (discKey r s enumName variant))
          else
            .equalsBlock (enumDiscriminator (discKey r s enumName variant))
              (genPayloads r (discName enumName variant) 0 args))
      else none
  | .tuple _ => some .skip

/-- The code for the arms of a match.  Guards are not read. -/
def genMatch (r : Registry) (s : Scrutinee) (cases : List MatchCase) : Option (List ArmCode) :=
  cases.mapM fun
    | .mk pattern _ _ => genPattern r s pattern

/-- Load payloads into slots. -/
def loadPayloads (mem : Memory) (block : Word) : List (Nat × Ident × LlvmType) →
    Option (List Slot)
  | [] => some []
  | (i, name, type) :: rest =>
      match mem.load (block + BitVec.ofNat 64 (8 * (i + 1))), loadPayloads mem block rest with
      | some word, some slots => some (⟨name, type, word⟩ :: slots)
      | _, _ => none

/-- Run the code of one arm; its constant lies at this address. -/
def execArm (mem : Memory) (s : Scrutinee) (word constant : Word) :
    ArmCode → FirstMatch.Outcome (List Slot)
  | .skip => .next
  | .always none => .taken []
  | .always (some name) => .taken [⟨name, s.type, word⟩]
  | .equalsNumber number =>
      if word = numberWord (bits s.type) number then .taken [] else .next
  | .equalsText => if word = constant then .taken [] else .next
  | .equalsVariant discriminator => if word = discriminator then .taken [] else .next
  | .equalsBlock discriminator payloads =>
      if 65535 < word.toNat then
        match mem.load word with
        | some tag =>
            if tag = discriminator then
              match loadPayloads mem word payloads with
              | some slots => .taken slots
              | none => .fault
            else .next
        | none => .fault
      else .next

/-- Run the code of all arms; the constants lie at these addresses. -/
def execMatch (mem : Memory) (s : Scrutinee) (word : Word) (constants : Nat → Word)
    (codes : List ArmCode) : FirstMatch.Run (List Slot) :=
  FirstMatch.run (fun i code => execArm mem s word (constants i) code) 0 codes

/-- A variable with its value and the type of the slot that its declaration asks for. -/
structure Binding where
  name : Ident
  type : LlvmType
  value : Value

/-- The slot of a component of this declared type. -/
def slotType (type : Option Ty) : LlvmType :=
  payloadType ((type.map payloadKind).getD "Other")

/-- The literal is the value. -/
def denotes : Literal → Value → Bool
  | .integer n, .int m => n = m
  | .byte b, .int m => (b.toNat : Int) = m
  | .string s, .text t => s = t
  | .bool b, .bool c => b = c
  | _, _ => false

/-- The pattern `enumName::variant`, or `enumName` alone, names this variant. -/
def names (enumName variant owner name : Ident) : Bool :=
  if variant.isEmpty then enumName = name else enumName = owner && variant = name

mutual

/-- The variables of a pattern that matches the value.  A name that an
enumeration declares is that variant, another one is a variable.  Tuple
patterns match none of these values. -/
def matchPattern (enums : List EnumDecl) (type : LlvmType) : Pattern → Value →
    Option (List Binding)
  | .wildcard, _ => some []
  | .literal lit, value => if denotes lit value then some [] else none
  | .ident name sub, value =>
      if Declares enums name then
        match value with
        | .variant _ variant _ [] => if name = variant then some [] else none
        | _ => none
      else
        match sub with
        | none => some [⟨name, type, value⟩]
        | some sub => (matchPattern enums type sub value).map (⟨name, type, value⟩ :: ·)
  | .enumVariant enumName variant args, .variant owner name types values =>
      if names enumName variant owner name then matchPatterns enums types args values else none
  | .enumVariant .., _ => none
  | .tuple _, _ => none

/-- The variables of patterns that match as many components. -/
def matchPatterns (enums : List EnumDecl) (types : List Ty) : List Pattern → List Value →
    Option (List Binding)
  | [], [] => some []
  | arg :: args, value :: values =>
      match matchPattern enums (slotType types.head?) arg value,
          matchPatterns enums types.tail args values with
      | some bindings, some rest => some (bindings ++ rest)
      | _, _ => none
  | _, _ => none

end

/-- The bindings with which an arm is taken. -/
def takeCase (enums : List EnumDecl) (guardTrue : Expr → List Binding → Bool) (type : LlvmType)
    (value : Value) : MatchCase → Option (List Binding)
  | .mk pattern guard _ =>
      (matchPattern enums type pattern value).filter fun bindings =>
        guard.all fun condition => guardTrue condition bindings

/-- The slot holds what the binding says. -/
def Slot.Bound (mem : Memory) (slot : Slot) (binding : Binding) : Prop :=
  slot.name = binding.name ∧ slot.type = binding.type ∧
    Holds mem (bits slot.type) slot.word binding.value

/-- The code runs the body of the first arm that matches and whose guard is
true, with its bindings, and no body when there is none. -/
def RunsFirst (enums : List EnumDecl) (guardTrue : Expr → List Binding → Bool) (s : Scrutinee)
    (mem : Memory) (word : Word) (constants : Nat → Word) (value : Value)
    (cases : List MatchCase) : Prop :=
  ∃ codes, genMatch (.ofEnums enums) s cases = some codes ∧
    (execMatch mem s word constants codes).Agrees (List.Forall₂ (Slot.Bound mem))
      (FirstMatch.first (takeCase enums guardTrue s.type value) 0 cases)

/-! ## When the code of an arm is right -/

/-- LLVM accepts the code for the pattern. -/
def Fits (enums : List EnumDecl) (s : Scrutinee) : Pattern → Prop
  | .wildcard | .tuple _ => True
  | .literal (.float _) => False
  | .literal (.string _) => s.isPointer = true
  | .literal _ => s.isNumber = true
  | .ident name _ => Declares enums name → s.readsWord = true
  | .enumVariant .. => s.readsWord = true

/-- The value has not this number of a variant without payload. -/
def RejectsNumber (word discriminator : Word) : Value → Prop
  | .variant owner name _ [] => discriminator ≠ enumDiscriminatorNoarg (owner ++ "::" ++ name)
  | .variant .. | .text _ => True
  | _ => word ≠ discriminator

/-- The value has not this number of a variant with payload. -/
def RejectsBlock (mem : Memory) (word discriminator : Word) : Value → Prop
  | .variant _ _ _ [] | .bool _ => True
  | .variant owner name _ _ => discriminator ≠ enumDiscriminator (owner ++ "::" ++ name)
  | _ => word.toNat ≤ 65535 ∨ ∃ tag, mem.load word = some tag ∧ tag ≠ discriminator

/-- The test for the pattern fails on the value. -/
def Rejects (enums : List EnumDecl) (s : Scrutinee) (mem : Memory) (word constant : Word)
    (value : Value) : Pattern → Prop
  | .wildcard => False
  | .tuple _ => True
  | .literal (.string _) => word ≠ constant
  | .literal lit => ∀ number ∈ literalNumber lit, word ≠ numberWord (bits s.type) number
  | .ident name _ =>
      Declares enums name ∧ RejectsNumber word (enumDiscriminatorNoarg
        ((Registry.ofEnums enums).variantDiscriminatorKey s.enumName name)) value
  | .enumVariant enumName variant [] =>
      RejectsNumber word
        (enumDiscriminatorNoarg (discKey (.ofEnums enums) s enumName variant)) value
  | .enumVariant enumName variant _ =>
      RejectsBlock mem word (enumDiscriminator (discKey (.ofEnums enums) s enumName variant)) value

/-- A pattern for a component that is a variable, whose slot gets the right
type, or that matches and has no variables. -/
def PlainArg (enums : List EnumDecl) (kind : String) (type : LlvmType) (value : Value) :
    Pattern → Prop
  | .ident name sub =>
      ¬ Declares enums name ∧ payloadType kind = type ∧
        matchPattern enums type (.ident name sub) value = some [⟨name, type, value⟩]
  | arg => matchPattern enums type arg value = some []

/-- Such patterns for all components, from this index on. -/
def PlainArgs (enums : List EnumDecl) (discName : Ident) :
    Nat → List Ty → List Pattern → List Value → Prop
  | _, _, [], [] => True
  | i, types, arg :: args, value :: values =>
      PlainArg enums ((Registry.ofEnums enums).kindAt discName i) (slotType types.head?) value arg ∧
        PlainArgs enums discName (i + 1) types.tail args values
  | _, _, _, _ => False

/-- The test for a pattern that matches the value succeeds, and its variables
are loaded. -/
def Accepts (enums : List EnumDecl) (s : Scrutinee) (word constant : Word) (value : Value) :
    Pattern → Prop
  | .wildcard | .tuple _ => True
  | .literal (.string _) => word = constant
  | .literal _ => True
  | .ident name sub =>
      if Declares enums name then
        match value with
        | .variant owner variant _ _ =>
            enumDiscriminatorNoarg
                ((Registry.ofEnums enums).variantDiscriminatorKey s.enumName name) =
              enumDiscriminatorNoarg (owner ++ "::" ++ variant)
        | _ => False
      else matchPattern enums s.type (.ident name sub) value = some [⟨name, s.type, value⟩]
  | .enumVariant enumName variant args =>
      match args, value with
      | [], .variant owner name _ _ =>
          enumDiscriminatorNoarg (discKey (.ofEnums enums) s enumName variant) =
            enumDiscriminatorNoarg (owner ++ "::" ++ name)
      | args, .variant owner name types values =>
          enumDiscriminator (discKey (.ofEnums enums) s enumName variant) =
              enumDiscriminator (owner ++ "::" ++ name) ∧
            PlainArgs enums (discName enumName variant) 0 types args values
      | _, _ => False

/-- The code of the arm is right for the value. -/
def ArmRight (enums : List EnumDecl) (guardTrue : Expr → List Binding → Bool) (s : Scrutinee)
    (mem : Memory) (word constant : Word) (value : Value) : MatchCase → Prop
  | .mk pattern guard body =>
      if (takeCase enums guardTrue s.type value (.mk pattern guard body)).isSome then
        Accepts enums s word constant value pattern
      else Rejects enums s mem word constant value pattern

theorem known_contains_iff (enums : List EnumDecl) (name : Ident) :
    (Registry.ofEnums enums).known.contains name = true ↔ Declares enums name := by
  rw [List.contains_iff_mem, Registry.mem_known_iff]

theorem genPattern_isSome_iff (enums : List EnumDecl) (s : Scrutinee) (pattern : Pattern) :
    (genPattern (.ofEnums enums) s pattern).isSome = true ↔ Fits enums s pattern := by
  cases pattern with
  | wildcard | tuple patterns | enumVariant enumName variant args => simp [genPattern, Fits]
  | literal lit => cases lit <;> simp [genPattern, genLiteral, literalNumber, Fits]
  | ident name sub =>
      by_cases declared : Declares enums name
      all_goals simp [genPattern, Registry.mem_known_iff, declared, Fits]

variable {enums : List EnumDecl} {s : Scrutinee} {mem : Memory} {word constant : Word}
  {value : Value}

variable {width : Nat} {pattern : Pattern}

theorem rejectsNumber_iff (held : Holds mem width word value) (key : String) :
    RejectsNumber word (enumDiscriminatorNoarg key) value ↔
      word ≠ enumDiscriminatorNoarg key := by
  cases value with
  | int n | bool b | other bits => exact Iff.rfl
  | text t =>
      rw [Holds] at held
      exact iff_of_true trivial (ne_enumDiscriminatorNoarg held.1 key)
  | variant owner name types args =>
      cases args with
      | nil =>
          rw [Holds] at held
          rw [held]
          exact ne_comm
      | cons arg args =>
          rw [Holds] at held
          exact iff_of_true trivial (ne_enumDiscriminatorNoarg held.1 key)

theorem rejectsBlock_iff (held : Holds mem width word value) (discriminator : Word) :
    RejectsBlock mem word discriminator value ↔
      word.toNat ≤ 65535 ∨ ∃ tag, mem.load word = some tag ∧ tag ≠ discriminator := by
  cases value with
  | int n | text t | other bits => exact Iff.rfl
  | bool b =>
      rw [Holds] at held
      refine iff_of_true trivial (Or.inl ?_)
      rw [held]
      cases b <;> decide
  | variant owner name types args =>
      cases args with
      | nil =>
          rw [Holds] at held
          refine iff_of_true trivial (Or.inl ?_)
          rw [held]
          exact enumDiscriminatorNoarg_le _
      | cons arg args =>
          rw [Holds] at held
          rcases held with ⟨above, tagged, -⟩
          simp only [RejectsBlock, tagged, Option.some.injEq, exists_eq_left']
          constructor
          · intro differs
            exact Or.inr differs.symm
          · rintro (below | differs)
            · exact absurd above (Nat.not_lt.mpr below)
            · exact differs.symm

theorem agrees_none_iff {outcome : FirstMatch.Outcome (List Slot)} :
    outcome.Agrees (List.Forall₂ (Slot.Bound mem)) none ↔ outcome = .next := by
  cases outcome <;> simp [FirstMatch.Outcome.Agrees]

theorem execArm_equalsBlock_next (discriminator : Word)
    (payloads : List (Nat × Ident × LlvmType)) :
    execArm mem s word constant (.equalsBlock discriminator payloads) = .next ↔
      word.toNat ≤ 65535 ∨ ∃ tag, mem.load word = some tag ∧ tag ≠ discriminator := by
  rw [execArm]
  by_cases above : 65535 < word.toNat
  · rw [if_pos above, or_iff_right (Nat.not_le.mpr above)]
    cases loaded : mem.load word with
    | none => simp
    | some tag =>
        by_cases same : tag = discriminator
        · simp only [same, if_true, Option.some.injEq, ne_eq, exists_eq_left', not_true_eq_false,
            iff_false]
          cases loadPayloads mem word payloads <;> simp
        · simp [same]
  · rw [if_neg above]
    exact iff_of_true rfl (Or.inl (Nat.le_of_not_lt above))

theorem execArm_next_iff {code : ArmCode} (held : Holds mem width word value)
    (generated : genPattern (.ofEnums enums) s pattern = some code) :
    execArm mem s word constant code = .next ↔
      Rejects enums s mem word constant value pattern := by
  cases pattern with
  | wildcard | tuple patterns =>
      injection generated with generated
      subst generated
      simp [execArm, Rejects]
  | literal lit =>
      cases lit with
      | float bits => cases generated
      | string t =>
          simp only [genPattern, genLiteral, Option.ite_none_right_eq_some] at generated
          rcases generated with ⟨-, generated⟩
          injection generated with generated
          subst generated
          simp [execArm, Rejects]
      | _ =>
          simp only [genPattern, genLiteral, literalNumber, Option.map_some,
            Option.ite_none_right_eq_some, Option.some.injEq] at generated
          rcases generated with ⟨-, generated⟩
          subst generated
          simp [execArm, Rejects, literalNumber]
  | ident name sub =>
      by_cases declared : Declares enums name
      · simp only [genPattern, known_contains_iff, declared, if_true,
          Option.ite_none_right_eq_some, Option.some.injEq] at generated
        rcases generated with ⟨-, generated⟩
        subst generated
        simp [execArm, Rejects, declared, rejectsNumber_iff held]
      · simp only [genPattern, known_contains_iff, declared, if_false,
          Option.some.injEq] at generated
        subst generated
        simp [execArm, Rejects, declared]
  | enumVariant enumName variant args =>
      simp only [genPattern, Option.ite_none_right_eq_some, Option.some.injEq] at generated
      rcases generated with ⟨-, generated⟩
      subst generated
      cases args with
      | nil => simp [execArm, Rejects, rejectsNumber_iff held]
      | cons arg args =>
          rw [Rejects, rejectsBlock_iff held]
          exact execArm_equalsBlock_next _ _
          rintro ⟨⟩

/-! ## Payloads -/

variable {bindings : List Binding} {types : List Ty} {args : List Pattern} {values : List Value}
  {block : Word} {i : Nat} {slots : List Slot} {r : Registry} {discName : Ident}

theorem bits_payloadType (kind : String) : bits (payloadType kind) = 64 := by
  unfold payloadType
  split
  · rfl
  · split
    · rfl
    · split
      · rfl
      · split <;> rfl

mutual

theorem matchPattern_undeclared {type : LlvmType} :
    ∀ (pattern : Pattern) (value : Value) (bindings : List Binding),
      matchPattern enums type pattern value = some bindings →
        ∀ binding ∈ bindings, ¬ Declares enums binding.name
  | .wildcard, _, _, matched => by
      rw [matchPattern, Option.some.injEq] at matched
      simp [← matched]
  | .literal lit, value, _, matched => by
      rw [matchPattern, Option.ite_none_right_eq_some, Option.some.injEq] at matched
      simp [← matched.2]
  | .ident name sub, value, bindings, matched => by
      rw [matchPattern.eq_def] at matched
      by_cases declared : Declares enums name
      · simp only [declared, if_true] at matched
        split at matched
        · rw [Option.ite_none_right_eq_some, Option.some.injEq] at matched
          simp [← matched.2]
        · cases matched
      · simp only [declared, if_false] at matched
        cases sub with
        | none =>
            injection matched with matched
            simp [← matched, declared]
        | some sub =>
            rcases Option.map_eq_some_iff.mp matched with ⟨inner, subMatched, rfl⟩
            intro binding member
            rcases List.mem_cons.mp member with rfl | member
            · exact declared
            · exact matchPattern_undeclared sub value inner subMatched binding member
  | .enumVariant enumName variant args, .variant owner name types values, bindings, matched => by
      rw [matchPattern, Option.ite_none_right_eq_some] at matched
      exact matchPatterns_undeclared types args values bindings matched.2
  | .enumVariant _ _ _, .int _, _, matched => by cases matched
  | .enumVariant _ _ _, .bool _, _, matched => by cases matched
  | .enumVariant _ _ _, .text _, _, matched => by cases matched
  | .enumVariant _ _ _, .other _, _, matched => by cases matched
  | .tuple _, _, _, matched => by cases matched

theorem matchPatterns_undeclared (types : List Ty) :
    ∀ (args : List Pattern) (values : List Value) (bindings : List Binding),
      matchPatterns enums types args values = some bindings →
        ∀ binding ∈ bindings, ¬ Declares enums binding.name
  | [], [], _, matched => by
      rw [matchPatterns, Option.some.injEq] at matched
      simp [← matched]
  | arg :: args, value :: values, bindings, matched => by
      rw [matchPatterns] at matched
      split at matched
      · next first rest firstMatched restMatched =>
          injection matched with matched
          intro binding member
          rw [← matched] at member
          rcases List.mem_append.mp member with member | member
          · exact matchPattern_undeclared arg value first firstMatched binding member
          · exact matchPatterns_undeclared types.tail args values rest restMatched binding member
      · cases matched
  | [], _ :: _, _, matched => by cases matched
  | _ :: _, [], _, matched => by cases matched

end

theorem matchPattern_variable {type : LlvmType} {name : Ident} {sub : Option Pattern}
    (variable_ : ¬ Declares enums name)
    (matched : matchPattern enums type (.ident name sub) value = some bindings) :
    ∃ inner, bindings = ⟨name, type, value⟩ :: inner := by
  rw [matchPattern.eq_def] at matched
  simp only [variable_, if_false] at matched
  cases sub with
  | none =>
      injection matched with matched
      exact ⟨[], matched.symm⟩
  | some sub =>
      rcases Option.map_eq_some_iff.mp matched with ⟨inner, -, same⟩
      exact ⟨inner, same.symm⟩

theorem matchPatterns_cons_eq_some_iff {arg : Pattern} :
    matchPatterns enums types (arg :: args) (value :: values) = some bindings ↔
      ∃ first rest, matchPattern enums (slotType types.head?) arg value = some first ∧
        matchPatterns enums types.tail args values = some rest ∧ first ++ rest = bindings := by
  rw [matchPatterns]
  split
  · next first rest firstMatched restMatched => simp [firstMatched, restMatched]
  · next none_ =>
      constructor
      · intro matched
        cases matched
      · rintro ⟨first, rest, firstMatched, restMatched, -⟩
        exact absurd restMatched (none_ first rest firstMatched)

theorem loadPayloads_cons_eq_some_iff {name : Ident} {type : LlvmType}
    {payloads : List (Nat × Ident × LlvmType)} :
    loadPayloads mem block ((i, name, type) :: payloads) = some slots ↔
      ∃ word rest, mem.load (block + BitVec.ofNat 64 (8 * (i + 1))) = some word ∧
        loadPayloads mem block payloads = some rest ∧ ⟨name, type, word⟩ :: rest = slots := by
  rw [loadPayloads]
  split
  · next word rest loaded restLoaded => simp [loaded, restLoaded]
  · next none_ =>
      constructor
      · intro loaded
        cases loaded
      · rintro ⟨word, rest, loaded, restLoaded, -⟩
        exact absurd restLoaded (none_ word rest loaded)

theorem next_address (block : Word) (i : Nat) :
    block + BitVec.ofNat 64 (8 * (i + 1)) + 8#64 =
      block + BitVec.ofNat 64 (8 * (i + 1 + 1)) := by
  rw [BitVec.add_assoc, ← BitVec.ofNat_add]
  rfl

theorem slots_length_le
    (loaded : loadPayloads mem block (genPayloads r discName i args) = some slots)
    (matched : matchPatterns enums types args values = some bindings)
    (undeclared : ∀ slot ∈ slots, ¬ Declares enums slot.name) : slots.length ≤ bindings.length := by
  induction args generalizing i types values slots bindings with
  | nil =>
      injection loaded with loaded
      simp [← loaded]
  | cons arg args ih =>
      cases values with
      | nil => cases matched
      | cons value values =>
          rcases (matchPatterns_cons_eq_some_iff).mp matched with
            ⟨first, rest, firstMatched, restMatched, rfl⟩
          rw [List.length_append]
          cases arg with
          | ident name sub =>
              rcases (loadPayloads_cons_eq_some_iff).mp loaded with
                ⟨word, restSlots, -, restLoaded, rfl⟩
              have lengths := ih restLoaded restMatched
                fun slot member => undeclared slot (List.mem_cons_of_mem _ member)
              have variable_ : ¬ Declares enums name := undeclared _ List.mem_cons_self
              rcases matchPattern_variable variable_ firstMatched with ⟨inner, rfl⟩
              rw [List.length_cons, List.length_cons]
              omega
          | wildcard | literal | tuple | enumVariant =>
              exact (ih loaded restMatched undeclared).trans (Nat.le_add_left _ _)

/-- The slots of the later patterns leave no room for further variables before
theirs. -/
theorem inner_eq_nil {inner rest : List Binding}
    (loaded : loadPayloads mem block (genPayloads r discName i args) = some slots)
    (matched : matchPatterns enums types args values = some rest)
    (undeclared : ∀ binding ∈ inner ++ rest, ¬ Declares enums binding.name)
    (bound : List.Forall₂ (Slot.Bound mem) slots (inner ++ rest)) : inner = [] := by
  have slotsUndeclared : ∀ slot ∈ slots, ¬ Declares enums slot.name := by
    intro slot member
    rcases List.mem_iff_get.mp member with ⟨position, rfl⟩
    have inside : position < (inner ++ rest).length := bound.length_eq ▸ position.isLt
    have same := ((List.forall₂_iff_get.mp bound).2 position position.isLt inside).1
    simp only [List.get_eq_getElem] at same ⊢
    rw [same]
    exact undeclared _ (List.getElem_mem inside)
  have lengths := slots_length_le loaded matched slotsUndeclared
  have total := bound.length_eq
  rw [List.length_append] at total
  exact List.eq_nil_of_length_eq_zero (by omega)

/-- The slots of the variables that an arm loads are those of its pattern. -/
def LoadsBindings (mem : Memory) (block : Word) (payloads : List (Nat × Ident × LlvmType))
    (bindings : List Binding) : Prop :=
  ∃ slots, loadPayloads mem block payloads = some slots ∧
    List.Forall₂ (Slot.Bound mem) slots bindings

/-- The code loads the components of a block into the variables of the patterns
exactly when these are plain. -/
theorem loadsBindings_iff (held : HoldsFrom mem (block + BitVec.ofNat 64 (8 * (i + 1))) values)
    (matched : matchPatterns enums types args values = some bindings) :
    LoadsBindings mem block (genPayloads (.ofEnums enums) discName i args) bindings ↔
      PlainArgs enums discName i types args values := by
  induction args generalizing i types values bindings with
  | nil =>
      cases values with
      | nil =>
          injection matched with matched
          subst matched
          exact iff_of_true ⟨[], rfl, .nil⟩ trivial
      | cons value values => cases matched
  | cons arg args ih =>
      cases values with
      | nil => cases matched
      | cons value values =>
          have undeclared := matchPatterns_undeclared types _ _ _ matched
          rcases (matchPatterns_cons_eq_some_iff).mp matched with
            ⟨first, rest, firstMatched, restMatched, rfl⟩
          rw [HoldsFrom, next_address] at held
          rcases held with ⟨⟨word, loaded, holds⟩, heldRest⟩
          have later := ih heldRest restMatched
          rw [PlainArgs, ← later]
          cases arg with
          | ident name sub =>
              constructor
              · rintro ⟨slots, slotsLoaded, bound⟩
                rcases (loadPayloads_cons_eq_some_iff).mp slotsLoaded with
                  ⟨loadedWord, restSlots, wordLoaded, restLoaded, rfl⟩
                rcases List.forall₂_cons_left_iff.mp bound with
                  ⟨binding, restBindings, ⟨named, typed, -⟩, restBound, split⟩
                have variable_ : ¬ Declares enums name := by
                  have free := undeclared binding (split ▸ List.mem_cons_self)
                  rwa [← named] at free
                rcases matchPattern_variable variable_ firstMatched with ⟨inner, rfl⟩
                injection split with head tail
                subst head tail
                have nothing := inner_eq_nil restLoaded restMatched
                  (fun later member => undeclared later (List.mem_cons_of_mem _ member)) restBound
                subst nothing
                exact ⟨⟨variable_, typed, firstMatched⟩, restSlots, restLoaded, restBound⟩
              · rintro ⟨⟨variable_, typed, plain⟩, restSlots, restLoaded, restBound⟩
                rw [firstMatched] at plain
                injection plain with plain
                subst plain
                refine ⟨⟨name, payloadType ((Registry.ofEnums enums).kindAt discName i), word⟩ ::
                  restSlots, ?_, ?_⟩
                · exact (loadPayloads_cons_eq_some_iff).mpr ⟨word, restSlots, loaded, restLoaded, rfl⟩
                · refine .cons ⟨rfl, typed, ?_⟩ restBound
                  rwa [bits_payloadType]
          | wildcard | literal | tuple | enumVariant =>
              constructor
              · rintro ⟨slots, slotsLoaded, bound⟩
                have restLoaded : loadPayloads mem block
                    (genPayloads (.ofEnums enums) discName (i + 1) args) = some slots := slotsLoaded
                have nothing := inner_eq_nil restLoaded restMatched undeclared bound
                subst nothing
                exact ⟨firstMatched, slots, slotsLoaded, bound⟩
              · rintro ⟨plain, slots, slotsLoaded, bound⟩
                simp only [PlainArg] at plain
                rw [firstMatched] at plain
                injection plain with plain
                subst plain
                exact ⟨slots, slotsLoaded, bound⟩

/-! ## Arms that match -/

theorem literal_word {lit : Literal} {number : Int} (represented : s.Represents mem word value)
    (denoted : denotes lit value = true) (numeric : literalNumber lit = some number) :
    word = numberWord (bits s.type) number := by
  rcases represented with ⟨held, typed⟩
  cases lit <;> cases value <;>
    simp only [denotes, decide_eq_true_eq, Bool.false_eq_true] at denoted
  · injection numeric with numeric
    rwa [Holds, ← denoted, numeric] at held
  · cases numeric
  · injection numeric with numeric
    rwa [Holds, ← denoted, numeric] at held
  · injection numeric with numeric
    rw [Holds, ← denoted] at held
    rw [held, ← numeric, typed]
    split <;> rfl

/-- An arm whose pattern matches is taken with the right bindings exactly when
its test succeeds and its variables are loaded. -/
theorem execArm_taken_iff {code : ArmCode} (represented : s.Represents mem word value)
    (generated : genPattern (.ofEnums enums) s pattern = some code)
    (matched : matchPattern enums s.type pattern value = some bindings) :
    (execArm mem s word constant code).Agrees (List.Forall₂ (Slot.Bound mem)) (some bindings) ↔
      Accepts enums s word constant value pattern := by
  have held := represented.1
  cases pattern with
  | wildcard =>
      injection generated with generated
      injection matched with matched
      subst generated matched
      exact iff_of_true .nil trivial
  | tuple patterns => cases matched
  | literal lit =>
      rw [matchPattern, Option.ite_none_right_eq_some, Option.some.injEq] at matched
      rcases matched with ⟨denoted, rfl⟩
      cases lit with
      | float bits => cases generated
      | string t =>
          simp only [genPattern, genLiteral, Option.ite_none_right_eq_some] at generated
          rcases generated with ⟨-, generated⟩
          injection generated with generated
          subst generated
          by_cases same : word = constant
          all_goals simp [execArm, same, Accepts, FirstMatch.Outcome.Agrees]
      | _ =>
          simp only [genPattern, genLiteral, literalNumber, Option.map_some,
            Option.ite_none_right_eq_some, Option.some.injEq] at generated
          rcases generated with ⟨-, generated⟩
          subst generated
          rw [execArm, if_pos (literal_word represented denoted rfl)]
          exact iff_of_true .nil trivial
  | ident name sub =>
      by_cases declared : Declares enums name
      · simp only [genPattern, known_contains_iff, declared, if_true,
          Option.ite_none_right_eq_some, Option.some.injEq] at generated
        rcases generated with ⟨-, generated⟩
        subst generated
        rw [matchPattern.eq_def] at matched
        simp only [declared, if_true] at matched
        split at matched
        · next owner variant types =>
            rw [Option.ite_none_right_eq_some, Option.some.injEq] at matched
            rcases matched with ⟨-, rfl⟩
            rw [Holds] at held
            simp only [Accepts, declared, if_true, execArm, held]
            by_cases same : enumDiscriminatorNoarg (owner ++ "::" ++ variant) =
                enumDiscriminatorNoarg
                  ((Registry.ofEnums enums).variantDiscriminatorKey s.enumName name)
            · rw [if_pos same]
              exact iff_of_true .nil same.symm
            · rw [if_neg same]
              exact iff_of_false (fun agrees => agrees) fun equal => same equal.symm
        · cases matched
      · simp only [genPattern, known_contains_iff, declared, if_false,
          Option.some.injEq] at generated
        subst generated
        rcases matchPattern_variable declared matched with ⟨inner, rfl⟩
        simp only [Accepts, declared, if_false, matched, execArm, FirstMatch.Outcome.Agrees,
          List.forall₂_cons, Option.some.injEq, List.cons.injEq, true_and]
        constructor
        · rintro ⟨-, rest⟩
          cases rest
          rfl
        · rintro rfl
          exact ⟨⟨rfl, rfl, held⟩, .nil⟩
  | enumVariant enumName variant args =>
      simp only [genPattern, Option.ite_none_right_eq_some, Option.some.injEq] at generated
      rcases generated with ⟨-, generated⟩
      subst generated
      cases value with
      | variant owner name types values =>
          rw [matchPattern, Option.ite_none_right_eq_some] at matched
          rcases matched with ⟨-, matched⟩
          cases args with
          | nil =>
              cases values with
              | cons value values => cases matched
              | nil =>
                  injection matched with matched
                  subst matched
                  rw [Holds] at held
                  simp only [Accepts, List.isEmpty_nil, if_true, execArm, held]
                  by_cases same : enumDiscriminatorNoarg (owner ++ "::" ++ name) =
                      enumDiscriminatorNoarg (discKey (.ofEnums enums) s enumName variant)
                  · rw [if_pos same]
                    exact iff_of_true .nil same.symm
                  · rw [if_neg same]
                    exact iff_of_false (fun agrees => agrees) fun equal => same equal.symm
          | cons arg args =>
              cases values with
              | nil => cases matched
              | cons value values =>
                  rw [Holds] at held
                  rcases held with ⟨above, tagged, parts⟩
                  simp only [Accepts, List.isEmpty_cons, Bool.false_eq_true, if_false, execArm,
                    above, if_true, tagged]
                  by_cases same : enumDiscriminator (owner ++ "::" ++ name) =
                      enumDiscriminator (discKey (.ofEnums enums) s enumName variant)
                  · rw [if_pos same, and_iff_right same.symm,
                      ← loadsBindings_iff (by simpa using parts) matched]
                    cases loaded : loadPayloads mem word (genPayloads (.ofEnums enums)
                        (discName enumName variant) 0 (arg :: args)) with
                    | none | some slots => simp [LoadsBindings, loaded, FirstMatch.Outcome.Agrees]
                  · rw [if_neg same]
                    exact iff_of_false (fun agrees => agrees) fun accepted => same accepted.1.symm
      | int n | bool b | text t | other bits => cases matched

/-! ## The whole match -/

/-- The outcome of an arm of the source. -/
def runCase (r : Registry) (mem : Memory) (s : Scrutinee) (word constant : Word) :
    MatchCase → FirstMatch.Outcome (List Slot)
  | .mk pattern _ _ =>
      match genPattern r s pattern with
      | some code => execArm mem s word constant code
      | none => .fault

variable {cases : List MatchCase}

/-- An arm does what its source says exactly when its code is right. -/
theorem runCase_agrees_iff {guardTrue : Expr → List Binding → Bool} {arm : MatchCase}
    (represented : s.Represents mem word value)
    (generated : ∀ pattern guard body, arm = .mk pattern guard body →
      (genPattern (.ofEnums enums) s pattern).isSome = true) :
    (runCase (.ofEnums enums) mem s word constant arm).Agrees (List.Forall₂ (Slot.Bound mem))
        (takeCase enums guardTrue s.type value arm) ↔
      ArmRight enums guardTrue s mem word constant value arm := by
  rcases arm with ⟨pattern, guard, body⟩
  rcases Option.isSome_iff_exists.mp (generated pattern guard body rfl) with ⟨code, generated⟩
  simp only [runCase, generated, ArmRight]
  cases taken : takeCase enums guardTrue s.type value (.mk pattern guard body) with
  | none =>
      rw [agrees_none_iff, execArm_next_iff represented.1 generated]
      simp
  | some bindings =>
      rw [takeCase, Option.filter_eq_some_iff] at taken
      rw [execArm_taken_iff represented generated taken.1]
      simp

theorem genMatch_cons_eq_some_iff {guard : Option Expr} {body : Expr} {codes : List ArmCode} :
    genMatch r s (.mk pattern guard body :: cases) = some codes ↔
      ∃ code rest, genPattern r s pattern = some code ∧ genMatch r s cases = some rest ∧
        code :: rest = codes := by
  simp only [genMatch]
  rw [List.mapM_cons]
  simp [Option.bind_eq_some_iff]

theorem genMatch_isSome_iff : (∃ codes, genMatch (.ofEnums enums) s cases = some codes) ↔
      ∀ pattern guard body, .mk pattern guard body ∈ cases → Fits enums s pattern := by
  induction cases with
  | nil => simp [genMatch]
  | cons arm cases ih =>
      rcases arm with ⟨pattern, guard, body⟩
      constructor
      · rintro ⟨codes, generated⟩ pattern guard body member
        rcases genMatch_cons_eq_some_iff.mp generated with ⟨code, rest, headCode, restCodes, -⟩
        rcases List.mem_cons.mp member with same | member
        · injection same with same
          subst same
          exact (genPattern_isSome_iff ..).mp (Option.isSome_iff_exists.mpr ⟨code, headCode⟩)
        · exact ih.mp ⟨rest, restCodes⟩ pattern guard body member
      · intro fits
        have headFits := fits pattern guard body List.mem_cons_self
        rcases Option.isSome_iff_exists.mp ((genPattern_isSome_iff ..).mpr headFits) with
          ⟨code, headCode⟩
        rcases ih.mpr fun pattern guard body member =>
          fits pattern guard body (List.mem_cons_of_mem _ member) with ⟨rest, restCodes⟩
        exact ⟨code :: rest, genMatch_cons_eq_some_iff.mpr ⟨code, rest, headCode, restCodes, rfl⟩⟩

theorem run_codes {codes : List ArmCode} {constants : Nat → Word} (start : Nat)
    (generated : genMatch r s cases = some codes) :
    FirstMatch.run (fun i code => execArm mem s word (constants i) code) start codes =
      FirstMatch.run (fun i arm => runCase r mem s word (constants i) arm) start cases := by
  induction cases generalizing start codes with
  | nil =>
      injection generated with generated
      subst generated
      rfl
  | cons arm cases ih =>
      rcases arm with ⟨pattern, guard, body⟩
      rcases genMatch_cons_eq_some_iff.mp generated with ⟨code, rest, headCode, restCodes, rfl⟩
      simp only [FirstMatch.run, runCase, headCode, ih (start + 1) restCodes]

/-- `enum Option { Some(Int64), None }`. -/
def optionEnum : EnumDecl where
  name := "Option"
  variants := [⟨"Some", [.int64], none⟩, ⟨"None", [], none⟩]
  doc := none
  annotations := []

/-- A memory with the block of `Option::Some(7)` at the address 70000. -/
def someMemory : Memory where
  load := fun address =>
    if address = 70000#64 then some (enumDiscriminator "Option::Some")
    else if address = 70008#64 then some 7#64
    else none
  text := fun _ => none

/-- `enum Kind { Xor, Le }`. -/
def kindEnum : EnumDecl where
  name := "Kind"
  variants := [⟨"Xor", [], none⟩, ⟨"Le", [], none⟩]
  doc := none
  annotations := []

end Tinox.Codegen.Match
