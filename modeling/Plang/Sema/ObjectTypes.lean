import Plang.Basic.Text
import Plang.Library.StructLayout

/-!
# Object types

An object type is a list of records of types, its own first and then those of its ancestors.  How a
declaration is resolved over its ancestor, the offsets that the checker and the generator give the
fields and the pointer to the table of virtual methods, and how a method is called.
-/

namespace Plang.Sema

open StructLayout

/-! ### Types -/

/-- The type of a field: its size, if it has one, and its alignment to the checker, and the shape of
what the generator lowers it to. -/
structure FieldType where
  byteSize : Option Nat
  byteAlign : Nat
  lowered : Shape
  deriving DecidableEq, Repr

structure Field where
  name : Text
  ty : FieldType
  isPrivate : Bool
  declaringModule : Text
  deriving DecidableEq, Repr

/-- A method with a signature of some type; a slot is given to virtual methods only. -/
structure Method (σ : Type*) where
  name : Text
  isPrivate : Bool
  isVirtual : Bool
  isAbstract : Bool
  isConstructor : Bool
  isDestructor : Bool
  signature : σ
  vmtSlot : Option Nat
  deriving DecidableEq, Repr

structure VmtSlotEntry where
  methodName : Text
  implementingType : Text
  declaringModule : Text
  deriving DecidableEq, Repr

structure TypeRecord (σ : Type*) where
  name : Text
  declaringModule : Text
  /-- The fields of the ancestors, and then its own. -/
  recordFields : List Field
  /-- Its own methods. -/
  objectMethods : List (Method σ)
  vmtSlots : List VmtSlotEntry
  deriving DecidableEq, Repr

/-- The record of the type and the records of its ancestors. -/
abbrev Chain (σ : Type*) := List (TypeRecord σ)

inductive Member (σ : Type*) where
  | field (names : List Text) (ty : FieldType) (isPrivate : Bool)
  | method (heading : Method σ)
  deriving DecidableEq, Repr

/-! ### Resolving a declaration -/

section Resolve

variable {σ : Type*}

def TypeRecord.methodNamed (record : TypeRecord σ) (lowerName : Text) : Option (Method σ) :=
  record.objectMethods.find? fun method => toLower method.name = lowerName

def findMethodInChain : Chain σ → Text → Option (Method σ)
  | [], _ => none
  | record :: ancestors, lowerName =>
      (record.methodNamed lowerName).or (findMethodInChain ancestors lowerName)

/-- The slots of the ancestor. -/
def inheritedSlots : Chain σ → List VmtSlotEntry
  | [] => []
  | parent :: _ => parent.vmtSlots

def inheritedFields : Chain σ → List Field
  | [] => []
  | parent :: _ => parent.recordFields

/-- The names that a field may not have. -/
def inheritedNames (parents : Chain σ) : List Text :=
  (inheritedFields parents).map (fun field => toLower field.name) ++
    parents.flatMap fun record => record.objectMethods.map fun method => toLower method.name

variable (sameMethodSignature : σ → σ → Bool) (currentUnit declName : Text) (parents : Chain σ)

/-- A type being resolved, and the names that it declares itself. -/
structure Resolving (σ : Type*) where
  record : TypeRecord σ
  ownNames : List Text

/-- A field, unless its name is taken at this level or above. -/
def addField (ty : FieldType) (isPrivate : Bool) (state : Resolving σ) (name : Text) :
    Option (Resolving σ) :=
  if toLower name ∈ state.ownNames ∨ toLower name ∈ inheritedNames parents then none
  else some
    { record := { state.record with
        recordFields := state.record.recordFields ++ [⟨name, ty, isPrivate, currentUnit⟩] }
      ownNames := toLower name :: state.ownNames }

/-- The slot of a virtual method, and the slots with it: the slot of the nearest inherited method of
that name where that one is virtual, and else a new one. -/
def assignSlot (heading : Method σ) (slots : List VmtSlotEntry) :
    Option (Nat × List VmtSlotEntry) :=
  let fresh : Nat × List VmtSlotEntry :=
    (slots.length, slots ++ [⟨heading.name, declName, currentUnit⟩])
  match findMethodInChain parents (toLower heading.name) with
  | none => some fresh
  | some inherited =>
      match inherited.vmtSlot with
      | none => some fresh
      | some slot =>
          if inherited.isVirtual ∧ slot < slots.length then
            if sameMethodSignature heading.signature inherited.signature then
              some (slot, slots.modify slot fun entry =>
                { entry with implementingType := declName, declaringModule := currentUnit })
            else none
          else some fresh

def addMethod (heading : Method σ) (state : Resolving σ) : Option (Resolving σ) :=
  if toLower heading.name ∈ state.ownNames then none
  else if heading.isConstructor ∧ heading.isVirtual then none
  else if heading.isAbstract ∧ ¬heading.isVirtual then none
  else
    let ownNames := toLower heading.name :: state.ownNames
    if heading.isVirtual then
      (assignSlot sameMethodSignature currentUnit declName parents heading
        state.record.vmtSlots).map fun assigned =>
          { record := { state.record with
              objectMethods :=
                state.record.objectMethods ++ [{ heading with vmtSlot := some assigned.1 }]
              vmtSlots := assigned.2 }
            ownNames := ownNames }
    else some
      { record := { state.record with
          objectMethods := state.record.objectMethods ++ [{ heading with vmtSlot := none }] }
        ownNames := ownNames }

def addMember (state : Resolving σ) : Member σ → Option (Resolving σ)
  | .field names ty isPrivate =>
      names.foldlM (addField currentUnit parents ty isPrivate) state
  | .method heading => addMethod sameMethodSignature currentUnit declName parents heading state

/-- The record of a type before its members: what it inherits. -/
def seed : Resolving σ :=
  ⟨⟨declName, currentUnit, inheritedFields parents, [], inheritedSlots parents⟩, []⟩

/-- The record of a declaration, where nothing is reported. -/
def resolveObjectType (members : List (Member σ)) : Option (TypeRecord σ) :=
  (members.foldlM (addMember sameMethodSignature currentUnit declName parents)
    (seed currentUnit declName parents)).map Resolving.record

end Resolve

/-- An object type of an accepted program. -/
inductive Accepted {σ : Type*} (sameMethodSignature : σ → σ → Bool) : Chain σ → Prop where
  | root {currentUnit declName members record} :
      resolveObjectType sameMethodSignature currentUnit declName [] members = some record →
      Accepted sameMethodSignature [record]
  | derived {currentUnit declName parents members record} :
      Accepted sameMethodSignature parents →
      resolveObjectType sameMethodSignature currentUnit declName parents members = some record →
      Accepted sameMethodSignature (record :: parents)

/-! ### Layout -/

section Layout

variable {σ : Type*}

/-- The level that first has a virtual method. -/
def introducesVptr (record : TypeRecord σ) (parents : Chain σ) : Bool :=
  (inheritedSlots parents).isEmpty && !record.vmtSlots.isEmpty

def ownFields (record : TypeRecord σ) (parents : Chain σ) : List Field :=
  record.recordFields.drop (inheritedFields parents).length

/-- `byteAlignOf` of an object type. -/
def TypeRecord.byteAlign (record : TypeRecord σ) : Nat :=
  let align := record.recordFields.foldl (fun align field => max align field.ty.byteAlign) 1
  if record.vmtSlots.isEmpty then align else max align 8

/-- Where the next field may start, the alignment so far, and the offsets of the fields. -/
structure Laying where
  position : Nat
  align : Nat
  offsets : List (Text × Nat)

def layField (laying : Laying) (field : Field) : Option Laying :=
  field.ty.byteSize.map fun size =>
    let offset := roundUp laying.position field.ty.byteAlign
    ⟨offset + size, max laying.align field.ty.byteAlign, laying.offsets ++ [(field.name, offset)]⟩

/-- `byteSizeOf` of an object type, with the offsets of its fields. -/
def byteSizeOf : Chain σ → Option (Nat × List (Text × Nat))
  | [] => none
  | record :: parents => do
      let start ← match parents with
        | [] => some ⟨0, 1, []⟩
        | parent :: _ => (byteSizeOf parents).map fun whole => ⟨whole.1, parent.byteAlign, whole.2⟩
      let laying ← (ownFields record parents).foldlM layField start
      if introducesVptr record parents then
        let align := max laying.align 8
        some (roundUp (roundUp laying.position 8 + 8) align, laying.offsets)
      else some (roundUp laying.position laying.align, laying.offsets)

variable (pointer : Shape)

/-- `layoutOfObject`: the ancestor as one element, the own fields, and the pointer to the table. -/
def elements : Chain σ → List Shape
  | [] => []
  | record :: parents =>
      (if parents.isEmpty then [] else [struct (elements parents)]) ++
        (ownFields record parents).map (fun field => field.ty.lowered) ++
        if introducesVptr record parents then [pointer] else []

def ownIndex (parents : Chain σ) (index : Nat) : Nat :=
  if parents.isEmpty then index else index + 1

/-- `objectFieldPtr`: the offset of a field, in its own level or inside of the ancestor. -/
def objectFieldOffset : Chain σ → Text → Option Nat
  | [], _ => none
  | record :: parents, name =>
      match (ownFields record parents).findIdx? fun field => toLower field.name = toLower name with
      | some index => elementOffset (elements pointer (record :: parents)) (ownIndex parents index)
      | none =>
          (elementOffset (elements pointer (record :: parents)) 0).bind fun inside =>
            (objectFieldOffset parents name).map fun offset => inside + offset

/-- `vptrOffsetOf`. -/
def vptrOffsetOf : Chain σ → Option Nat
  | [] => none
  | record :: parents =>
      if record.vmtSlots.isEmpty then none
      else if introducesVptr record parents then
        elementOffset (elements pointer (record :: parents))
          (ownIndex parents (ownFields record parents).length)
      else vptrOffsetOf parents

end Layout

/-! ### Calls -/

/-- Who implements the method that a call through a type reaches in an object of another: for a
virtual method what the object's table holds, and else the method itself. -/
def emitBoundMethodCall {σ : Type*} (receiver object : Chain σ) (name : Text) :
    Option (Text × Text) :=
  match receiver with
  | [] => none
  | record :: ancestors =>
      match record.methodNamed (toLower name) with
      | none => emitBoundMethodCall ancestors object name
      | some method =>
          if method.isVirtual then
            method.vmtSlot.bind fun slot => (inheritedSlots object)[slot]?.map fun entry =>
              (entry.implementingType, entry.declaringModule)
          else some (record.name, record.declaringModule)

end Plang.Sema
