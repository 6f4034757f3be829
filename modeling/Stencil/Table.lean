/-! The kinds of table that a module can hold. Four of them are pools, whose records the library reads;
    the contents of all others are carried along as they are. -/

namespace Stencil

/-- A table whose records are read. -/
inductive Pool where
  | moduleHandles
  | constants
  | identifiers
  | addresses
  deriving DecidableEq, Repr

/-- A table whose contents are carried along unread. -/
inductive Carried where
  | structHandles
  | functionHandles
  | functionInstantiations
  | signatures
  | structDefs
  | structDefInstantiations
  | functionDefs
  | fieldHandles
  | fieldInstantiations
  | friendDecls
  | metadata
  | enumDefs
  | enumDefInstantiations
  | variantHandles
  | variantInstantiationHandles
  deriving DecidableEq, Repr

inductive Table where
  | pool (pool : Pool)
  | carried (table : Carried)
  deriving DecidableEq, Repr

namespace Table

/-- The byte that stands for a kind in a module's directory. No kind has the byte `09`. -/
def code : Table → UInt8
  | .pool .moduleHandles => 0x01
  | .carried .structHandles => 0x02
  | .carried .functionHandles => 0x03
  | .carried .functionInstantiations => 0x04
  | .carried .signatures => 0x05
  | .pool .constants => 0x06
  | .pool .identifiers => 0x07
  | .pool .addresses => 0x08
  | .carried .structDefs => 0x0A
  | .carried .structDefInstantiations => 0x0B
  | .carried .functionDefs => 0x0C
  | .carried .fieldHandles => 0x0D
  | .carried .fieldInstantiations => 0x0E
  | .carried .friendDecls => 0x0F
  | .carried .metadata => 0x10
  | .carried .enumDefs => 0x11
  | .carried .enumDefInstantiations => 0x12
  | .carried .variantHandles => 0x13
  | .carried .variantInstantiationHandles => 0x14

def name : Table → String
  | .pool .moduleHandles => "ModuleHandles"
  | .carried .structHandles => "StructHandles"
  | .carried .functionHandles => "FunctionHandles"
  | .carried .functionInstantiations => "FunctionInstantiations"
  | .carried .signatures => "Signatures"
  | .pool .constants => "ConstantPool"
  | .pool .identifiers => "Identifiers"
  | .pool .addresses => "AddressIdentifiers"
  | .carried .structDefs => "StructDefs"
  | .carried .structDefInstantiations => "StructDefInstantiations"
  | .carried .functionDefs => "FunctionDefs"
  | .carried .fieldHandles => "FieldHandles"
  | .carried .fieldInstantiations => "FieldInstantiations"
  | .carried .friendDecls => "FriendDecls"
  | .carried .metadata => "Metadata"
  | .carried .enumDefs => "EnumDefs"
  | .carried .enumDefInstantiations => "EnumDefInstantiations"
  | .carried .variantHandles => "VariantHandles"
  | .carried .variantInstantiationHandles => "VariantInstantiationHandles"

/-- Every kind, in the order of their bytes. -/
def all : List Table :=
  [.pool .moduleHandles, .carried .structHandles, .carried .functionHandles,
   .carried .functionInstantiations, .carried .signatures, .pool .constants, .pool .identifiers,
   .pool .addresses, .carried .structDefs, .carried .structDefInstantiations, .carried .functionDefs,
   .carried .fieldHandles, .carried .fieldInstantiations, .carried .friendDecls, .carried .metadata,
   .carried .enumDefs, .carried .enumDefInstantiations, .carried .variantHandles,
   .carried .variantInstantiationHandles]

def ofCode? (b : UInt8) : Option Table := all.find? (·.code == b)

theorem mem_all (kind : Table) : kind ∈ all := by
  rcases kind with p | c
  · cases p <;> decide
  · cases c <;> decide

theorem ofCode?_code (kind : Table) : ofCode? kind.code = some kind := by
  rcases kind with p | c
  · cases p <;> decide
  · cases c <;> decide

theorem code_of_ofCode? {b : UInt8} {kind : Table} (h : ofCode? b = some kind) : kind.code = b := by
  simpa using List.find?_some h

end Table

end Stencil
