import Stencil.Proofs.Writing

/-! Where things stand in the bytes of a module, counted from the first of them: the contents of a table, the
    records of a pool, the data of a constant and the text of an identifier. -/

namespace Stencil

/-- A stretch of bytes. -/
structure Span where
  start : Nat
  length : Nat
  deriving DecidableEq, Repr

namespace Span

/-- A place lies in a stretch. -/
def Has (s : Span) (place : Nat) : Prop := s.start ≤ place ∧ place < s.start + s.length

/-- The bytes of a stretch. -/
def of (s : Span) (bytes : List UInt8) : List UInt8 := (bytes.drop s.start).take s.length

theorem of_append {before word after : List UInt8} {s : Span} (hstart : before.length = s.start)
    (hlength : word.length = s.length) : s.of (before ++ word ++ after) = word := by
  rw [of, List.append_assoc, List.drop_left' hstart, List.take_left' hlength]

end Span

/-- The bytes of a constant before its data. -/
def Constant.head (c : Constant) : List UInt8 := c.type.encode ++ Uleb128.encode c.data.length

namespace Module

/-- The bytes of a module before the contents of its tables. -/
def front (m : Module) : List UInt8 :=
  magic ++ LittleEndian.encode 4 m.versionWord.toNat ++ Uleb128.encode m.entries.length ++
    m.entries.flatMap Placement.encode

/-- Where the contents of the table of a kind begin. -/
def start? (m : Module) (kind : Table) : Option Nat := (m.place? kind).map fun p => m.front.length + p.offset

/-- Where a record of a pool begins. -/
def recordStart? (m : Module) (p : Pool) (index : Nat) : Option Nat :=
  (m.start? (.pool p)).map (· + (((m.records p).take index).flatMap p.encode).length)

/-- Where the data of a constant stand. -/
def payload? (m : Module) (index : Nat) : Option Span := do
  let start ← m.recordStart? .constants index
  let c ← m.constants[index]?
  return ⟨start + c.head.length, c.data.length⟩

/-- Where the text of an identifier stands. -/
def text? (m : Module) (index : Nat) : Option Span := do
  let start ← m.recordStart? .identifiers index
  let name ← m.identifiers[index]?
  return ⟨start + (Uleb128.encode (Utf8.size name)).length, Utf8.size name⟩

theorem spell_entries (m : Module) : m.spell m.entries = m.front ++ (m.contents ++ trailer m.selfHandle) := by
  simp only [spell, body, front, List.append_assoc]

/-! ### Tables -/

theorem placements_append (start : Nat) (tables tables' : List (Table × List UInt8)) :
    placements start (tables ++ tables') =
      placements start tables ++ placements (start + (tables.flatMap (·.2)).length) tables' := by
  induction tables generalizing start with
  | nil => rfl
  | cons t tables ih =>
    rw [List.cons_append, placements, ih, placements, List.flatMap_cons, List.length_append, Nat.add_assoc]
    rfl

section Layout
variable {m : Module} {before after : List Slot} {slot : Slot}

theorem place?_of_layout (h : m.Listed) (hlayout : m.layout = before ++ slot :: after) :
    m.place? slot.kind =
      some ⟨slot.kind, (before.flatMap m.encodeSlot).length, (m.encodeSlot slot).length⟩ := by
  refine h.place?_eq_some_iff.mpr ⟨?_, rfl⟩
  rw [tables, hlayout, List.map_append, placements_append, List.flatMap_map, Nat.zero_add]
  exact List.mem_append_right _ List.mem_cons_self

theorem start?_of_layout (h : m.Listed) (hlayout : m.layout = before ++ slot :: after) :
    m.start? slot.kind = some (m.front.length + (before.flatMap m.encodeSlot).length) := by
  rw [start?, place?_of_layout h hlayout]
  rfl

theorem contents_of_layout (hlayout : m.layout = before ++ slot :: after) :
    m.contents = before.flatMap m.encodeSlot ++ (m.encodeSlot slot ++ after.flatMap m.encodeSlot) := by
  rw [contents_eq, hlayout, List.flatMap_append, List.flatMap_cons]

theorem spell_of_layout (hlayout : m.layout = before ++ slot :: after) : m.spell m.entries =
    m.front ++ before.flatMap m.encodeSlot ++
      (m.encodeSlot slot ++ (after.flatMap m.encodeSlot ++ trailer m.selfHandle)) := by
  rw [spell_entries, contents_of_layout hlayout]
  simp only [List.append_assoc]

end Layout

theorem eq_take_cons_drop {α : Type} {as : List α} {index : Nat} {a : α} (h : as[index]? = some a) :
    as = as.take index ++ a :: as.drop (index + 1) := by
  obtain ⟨hlt, rfl⟩ := List.getElem?_eq_some_iff.mp h
  rw [List.getElem_cons_drop, List.take_append_drop]

/-! ### Records -/

/-- The bytes of a record stand where the record begins. -/
theorem WellFormed.exists_record {m : Module} (h : m.WellFormed) {p : Pool} {index : Nat} {a : p.Record}
    (ha : (m.records p)[index]? = some a) : ∃ before after, m.recordStart? p index = some before.length ∧
      m.spell m.entries = before ++ p.encode a ++ after := by
  have hp : .pool p ∈ m.layout := by
    by_contra hp
    rw [h.absent p hp] at ha
    cases ha
  obtain ⟨before, after, hlayout⟩ := List.append_of_mem hp
  refine ⟨m.front ++ before.flatMap m.encodeSlot ++ ((m.records p).take index).flatMap p.encode,
    ((m.records p).drop (index + 1)).flatMap p.encode ++ (after.flatMap m.encodeSlot ++ trailer m.selfHandle),
    ?_, ?_⟩
  · have hstart := start?_of_layout h.listed hlayout
    rw [recordStart?, show Table.pool p = (Slot.pool p).kind from rfl, hstart]
    simp only [Option.map_some, List.length_append]
  · have hpool : m.encodeSlot (.pool p) = (((m.records p).take index).flatMap p.encode) ++
        (p.encode a ++ ((m.records p).drop (index + 1)).flatMap p.encode) := by
      rw [encodeSlot, encodePool_eq]
      conv => lhs; rw [eq_take_cons_drop ha, List.flatMap_append, List.flatMap_cons]
    rw [spell_of_layout hlayout, hpool]
    simp only [List.append_assoc]

/-- The data of constants and the text of identifiers stand where they are said to. -/
structure Located (m : Module) (bytes : List UInt8) : Prop where
  payload : ∀ index c, m.constants[index]? = some c → ∃ s, m.payload? index = some s ∧ s.of bytes = c.data
  text : ∀ index name, m.identifiers[index]? = some name →
    ∃ s, m.text? index = some s ∧ s.of bytes = Utf8.encode name

theorem located_of_decode {bytes : List UInt8} {m : Module} (h : decode bytes = .ok m) : m.Located bytes where
  payload index c hc := by
    obtain ⟨before, after, hstart, hspell⟩ := (wellFormed_of_decode h).exists_record (p := .constants) hc
    refine ⟨⟨before.length + c.head.length, c.data.length⟩, by simp [payload?, hstart, hc], ?_⟩
    have hencode : Pool.encode .constants c = c.head ++ c.data := rfl
    rw [eq_spell_of_decode h, hspell, hencode, ← List.append_assoc]
    exact Span.of_append List.length_append rfl
  text index name hname := by
    obtain ⟨before, after, hstart, hspell⟩ := (wellFormed_of_decode h).exists_record (p := .identifiers) hname
    refine ⟨⟨before.length + (Uleb128.encode (Utf8.size name)).length, Utf8.size name⟩,
      by simp [text?, hstart, hname], ?_⟩
    have hencode : Pool.encode .identifiers name = Uleb128.encode (Utf8.size name) ++ Utf8.encode name := rfl
    rw [eq_spell_of_decode h, hspell, hencode, ← List.append_assoc]
    exact Span.of_append List.length_append rfl

end Module

end Stencil
