import Mathlib.Data.BitVec
import Tinox.Codegen.Types

/-!
# Variants of enumerations

The numbers that stand for the variants of enumerations, the tables of owners
and payloads, and the text from which the number of a variant is computed.
-/

namespace Tinox.Codegen.Variants

open Tinox.Syntax

/-- Machine words. -/
abbrev Word := BitVec 64

/-- `fnv1a`, over the UTF-8 bytes of a name. -/
def fnv1a (name : String) : Word :=
  (name.toList.flatMap String.utf8EncodeChar).foldl
    (fun hash byte => (hash ^^^ byte.toBitVec.setWidth 64) * 0x100000001b3#64)
    0xcbf29ce484222325#64

/-- `enum_discriminator`, the first word of a block. -/
def enumDiscriminator (name : String) : Word :=
  fnv1a name

/-- `enum_discriminator_noarg`, the number of a variant without payload. -/
def enumDiscriminatorNoarg (name : String) : Word :=
  fnv1a name % 65536#64

/-- Numbers of variants without payload are below every block address. -/
theorem enumDiscriminatorNoarg_le (name : String) :
    (enumDiscriminatorNoarg name).toNat ≤ 65535 := by
  have remainder : (enumDiscriminatorNoarg name).toNat = (fnv1a name).toNat % 65536 := by
    simp [enumDiscriminatorNoarg, BitVec.toNat_umod]
  rw [remainder]
  exact Nat.le_of_lt_succ (Nat.mod_lt _ (by decide))

theorem ne_enumDiscriminatorNoarg {word : Word} (above : 65535 < word.toNat) (name : String) :
    word ≠ enumDiscriminatorNoarg name := by
  rintro rfl
  exact absurd (enumDiscriminatorNoarg_le name) (Nat.not_le.mpr above)

/-- `container_marker`. -/
def containerMarker : Ty → Option String
  | .array inner => some (elemText inner (containerMarker inner))
  | .generic name args =>
      if name = "List" ∨ name = "Array" then
        match args with
        | [] => none
        | inner :: _ => some (elemText inner (containerMarker inner))
      else none
  | .map _ value =>
      some (match value with
        | .string => "Map:String"
        | .float32 | .float64 => "Map:Float"
        | .named c => "Map:" ++ c
        | value =>
            match containerMarker value with
            | some marker => "Map:" ++ marker
            | none => "Map")
  | .mutable inner | .ref inner => containerMarker inner
  | _ => none
where
  /-- The marker of a list from its element type and that type's marker. -/
  elemText (inner : Ty) (marker : Option String) : String :=
    match inner with
    | .string => "Array:String"
    | .float32 | .float64 => "Array:Float"
    | .named c => "List:" ++ c
    | .generic name _ =>
        if name ≠ "List" ∧ name ≠ "Array" ∧ name ≠ "Map" then "List:" ++ name
        else nested marker
    | _ => nested marker
  /-- The marker of a list of containers or of plain values. -/
  nested (marker : Option String) : String :=
    match marker with
    | some marker => "Array:" ++ marker
    | none => "Array"

/-- `payload_kind`. -/
def payloadKind : Ty → String
  | .string => "String"
  | .map key value => (containerMarker (.map key value)).getD "Map"
  | .array inner => (containerMarker (.array inner)).getD "Array"
  | .generic name args =>
      if name = "List" then (containerMarker (.generic name args)).getD "Array" else "Other"
  | .float32 | .float64 => "Float"
  | .mutable inner | .ref inner => payloadKind inner
  | _ => "Other"

/-- `is_map_marker`. -/
def isMapMarker (marker : String) : Bool :=
  marker = "Map" || "Map:".toList.isPrefixOf marker.toList

/-- The type of the slot for a payload of this kind (`bind_match_payload`). -/
def payloadType (kind : String) : LlvmType :=
  if kind = "String" then .bytes
  else if isMapMarker kind then .bytes
  else if kind = "Float" then .double
  else if kind = "Array" || "Array:".toList.isPrefixOf kind.toList
      || "List:".toList.isPrefixOf kind.toList then .words
  else .i64

/-- What the generator knows about all variants of the program. -/
structure Registry where
  /-- `known_enum_variants`. -/
  known : List Ident
  /-- `variant_owner`; `some none` for a name with several owners. -/
  owner : Ident → Option (Option Ident)
  /-- `enum_variant_payloads`, by the name of the variant only. -/
  payloads : Ident → Option (List String)

namespace Registry

/-- Nothing declared. -/
def empty : Registry := ⟨[], fun _ => none, fun _ => none⟩

/-- `register_variant_owner`. -/
def registerVariantOwner (enumName variantName : Ident) (r : Registry) : Registry :=
  match r.owner variantName with
  | none => { r with owner := Function.update r.owner variantName (some (some enumName)) }
  | some (some existing) =>
      if existing ≠ enumName then
        { r with owner := Function.update r.owner variantName (some none) }
      else r
  | some none => r

/-- `register_variant_payloads`. -/
def registerVariantPayloads (name : Ident) (kinds : List String) (r : Registry) : Registry :=
  match r.payloads name with
  | some existing =>
      if existing.length ≥ kinds.length then r
      else { r with payloads := Function.update r.payloads name (some kinds) }
  | none => { r with payloads := Function.update r.payloads name (some kinds) }

/-- One variant of an enumeration. -/
def registerVariant (enumName : Ident) (r : Registry) (variant : EnumVariant) : Registry :=
  let r := { r with known := variant.name :: r.known }
  (r.registerVariantOwner enumName variant.name).registerVariantPayloads variant.name
    (variant.args.map payloadKind)

/-- One enumeration. -/
def registerEnum (r : Registry) (e : EnumDecl) : Registry :=
  e.variants.foldl (registerVariant e.name) r

/-- Both passes of the generator over the enumerations of the program. -/
def ofEnums (enums : List EnumDecl) : Registry :=
  (enums ++ enums).foldl registerEnum empty

/-- The kind of a payload at an index (`bind_match_payload`). -/
def kindAt (r : Registry) (variant : Ident) (index : Nat) : String :=
  ((r.payloads variant).bind fun kinds => kinds[index]?).getD "Other"

/-- `variant_discriminator_key`. -/
def variantDiscriminatorKey (r : Registry) (enumNameHint : Option Ident) (variant : Ident) :
    String :=
  match enumNameHint with
  | some enumName => enumName ++ "::" ++ variant
  | none =>
      match r.owner variant with
      | some (some owner) => owner ++ "::" ++ variant
      | _ => variant

/-- Some enumeration declares a variant of this name. -/
def Declares (enums : List EnumDecl) (name : Ident) : Prop :=
  ∃ e ∈ enums, ∃ variant ∈ e.variants, variant.name = name

instance (enums : List EnumDecl) (name : Ident) : Decidable (Declares enums name) :=
  inferInstanceAs (Decidable (∃ e ∈ enums, ∃ variant ∈ e.variants, variant.name = name))

variable {name enumName : Ident} {r : Registry} {enums : List EnumDecl}

@[simp]
theorem registerVariantPayloads_known (name : Ident) (kinds : List String) (r : Registry) :
    (r.registerVariantPayloads name kinds).known = r.known := by
  unfold registerVariantPayloads
  split
  · split <;> rfl
  · rfl

@[simp]
theorem registerVariantPayloads_owner (name : Ident) (kinds : List String) (r : Registry) :
    (r.registerVariantPayloads name kinds).owner = r.owner := by
  unfold registerVariantPayloads
  split
  · split <;> rfl
  · rfl

@[simp]
theorem registerVariantOwner_known (enumName variantName : Ident) (r : Registry) :
    (r.registerVariantOwner enumName variantName).known = r.known := by
  unfold registerVariantOwner
  split
  · rfl
  · split <;> rfl
  · rfl

theorem registerVariant_known (enumName : Ident) (r : Registry) (variant : EnumVariant) :
    (r.registerVariant enumName variant).known = variant.name :: r.known := by
  simp [registerVariant]

theorem mem_registerEnum_known (e : EnumDecl) (r : Registry) (name : Ident) :
    name ∈ (r.registerEnum e).known ↔
      (∃ variant ∈ e.variants, variant.name = name) ∨ name ∈ r.known := by
  unfold registerEnum
  induction e.variants generalizing r with
  | nil => simp
  | cons variant variants ih =>
      rw [List.foldl_cons, ih, registerVariant_known]
      simp only [List.mem_cons, exists_eq_or_imp, eq_comm (a := name)]
      rw [or_left_comm, or_assoc]

theorem mem_foldl_known (enums : List EnumDecl) (r : Registry) (name : Ident) :
    name ∈ (enums.foldl registerEnum r).known ↔ Declares enums name ∨ name ∈ r.known := by
  induction enums generalizing r with
  | nil => simp [Declares]
  | cons e enums ih =>
      rw [List.foldl_cons, ih, mem_registerEnum_known]
      simp only [Declares, List.mem_cons, exists_eq_or_imp]
      rw [or_left_comm, or_assoc]

theorem mem_known_iff (enums : List EnumDecl) (name : Ident) :
    name ∈ (ofEnums enums).known ↔ Declares enums name := by
  rw [ofEnums, mem_foldl_known]
  simp only [Declares, empty, List.mem_append, List.not_mem_nil, or_false, or_self]

/-- Nobody but this enumeration owns the name. -/
def Unshared (enumName : Ident) (owner : Option (Option Ident)) : Prop :=
  owner = none ∨ owner = some (some enumName)

theorem registerVariant_owner_of_ne (other : Ident) {variant : EnumVariant}
    (apart : variant.name ≠ name) :
    (r.registerVariant other variant).owner name = r.owner name := by
  simp only [registerVariant, registerVariantPayloads_owner]
  unfold registerVariantOwner
  split
  · exact Function.update_of_ne apart.symm _ _
  · split
    · exact Function.update_of_ne apart.symm _ _
    · rfl
  · rfl

theorem registerVariant_owner_self {variant : EnumVariant}
    (unshared : Unshared enumName (r.owner variant.name)) :
    (r.registerVariant enumName variant).owner variant.name = some (some enumName) := by
  simp only [registerVariant, registerVariantPayloads_owner]
  unfold registerVariantOwner
  rcases unshared with unowned | owned
  · simp [unowned]
  · simp [owned]

/-- An enumeration that alone may declare the name keeps the name unshared, and
owns it when it declares it. -/
theorem registerEnum_owner {e : EnumDecl} (unshared : Unshared enumName (r.owner name))
    (sole : (∃ variant ∈ e.variants, variant.name = name) → e.name = enumName) :
    Unshared enumName ((r.registerEnum e).owner name) ∧
      ((∃ variant ∈ e.variants, variant.name = name) ∨ r.owner name = some (some enumName) →
        (r.registerEnum e).owner name = some (some enumName)) := by
  unfold registerEnum
  generalize e.variants = variants at sole ⊢
  induction variants generalizing r with
  | nil => exact ⟨unshared, fun owned => owned.resolve_left (by simp)⟩
  | cons variant variants ih =>
      rw [List.foldl_cons]
      have soleRest : (∃ variant ∈ variants, variant.name = name) → e.name = enumName := by
        rintro ⟨later, member, named⟩
        exact sole ⟨later, List.mem_cons_of_mem _ member, named⟩
      by_cases named : variant.name = name
      · have owner := sole ⟨variant, List.mem_cons_self, named⟩
        have owned : (r.registerVariant e.name variant).owner name = some (some enumName) := by
          rw [← named, owner]
          exact registerVariant_owner_self (named ▸ unshared)
        rcases ih (Or.inr owned) soleRest with ⟨kept, owns⟩
        exact ⟨kept, fun _ => owns (Or.inr owned)⟩
      · rw [← registerVariant_owner_of_ne e.name named] at unshared
        rcases ih unshared soleRest with ⟨kept, owns⟩
        refine ⟨kept, ?_⟩
        rintro (⟨later, member, laterNamed⟩ | owned)
        · rcases List.mem_cons.mp member with rfl | member
          · exact absurd laterNamed named
          · exact owns (Or.inl ⟨later, member, laterNamed⟩)
        · exact owns (Or.inr ((registerVariant_owner_of_ne e.name named).trans owned))

theorem foldl_owner (unshared : Unshared enumName (r.owner name))
    (sole : ∀ e ∈ enums, (∃ variant ∈ e.variants, variant.name = name) → e.name = enumName) :
    Unshared enumName ((enums.foldl registerEnum r).owner name) ∧
      (Declares enums name ∨ r.owner name = some (some enumName) →
        (enums.foldl registerEnum r).owner name = some (some enumName)) := by
  induction enums generalizing r with
  | nil => exact ⟨unshared, fun owned => owned.resolve_left (by simp [Declares])⟩
  | cons e enums ih =>
      rw [List.foldl_cons]
      rcases registerEnum_owner unshared (sole e List.mem_cons_self) with ⟨kept, owns⟩
      rcases ih kept fun later member => sole later (List.mem_cons_of_mem _ member) with
        ⟨keptRest, ownsRest⟩
      refine ⟨keptRest, ?_⟩
      rintro (⟨later, member, declared⟩ | owned)
      · rcases List.mem_cons.mp member with rfl | member
        · exact ownsRest (Or.inr (owns (Or.inl declared)))
        · exact ownsRest (Or.inl ⟨later, member, declared⟩)
      · exact ownsRest (Or.inr (owns (Or.inr owned)))

theorem ofEnums_owner (declared : Declares enums name)
    (sole : ∀ e ∈ enums, (∃ variant ∈ e.variants, variant.name = name) → e.name = enumName) :
    (ofEnums enums).owner name = some (some enumName) := by
  have declaredTwice : Declares (enums ++ enums) name := by
    rcases declared with ⟨e, member, declares⟩
    exact ⟨e, List.mem_append_left _ member, declares⟩
  have soleTwice : ∀ e ∈ enums ++ enums,
      (∃ variant ∈ e.variants, variant.name = name) → e.name = enumName := by
    intro e member
    rcases List.mem_append.mp member with member | member <;> exact sole e member
  exact (foldl_owner (r := empty) (Or.inl rfl) soleTwice).2 (Or.inl declaredTwice)

/-- The text behind a variant's number is its qualified name when the type of
the scrutinee is known, and also when no other enumeration declares the name. -/
theorem variantDiscriminatorKey_eq {hint : Option Ident}
    (resolved : hint = some enumName ∨ hint = none ∧ Declares enums name ∧ ∀ e ∈ enums, (∃ variant ∈ e.variants, variant.name = name) → e.name = enumName) :
    (ofEnums enums).variantDiscriminatorKey hint name = enumName ++ "::" ++ name := by
  rcases resolved with rfl | ⟨rfl, declared, sole⟩
  · rfl
  · rw [variantDiscriminatorKey, ofEnums_owner declared sole]

end Registry

end Tinox.Codegen.Variants
