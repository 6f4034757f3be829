import Stencil.Proofs.Layout

/-! The contents of the tables. Each pool is a list of records of its own kind; reading a table fills one pool or
    carries the bytes along, and reading tables of different kinds fills each pool once. -/

namespace Stencil

/-! ### The records of a pool -/

namespace Pool

abbrev Record : Pool → Type
  | .moduleHandles => ModuleHandle
  | .constants => Constant
  | .identifiers => String
  | .addresses => Address

def encode : (p : Pool) → p.Record → List UInt8
  | .moduleHandles => ModuleHandle.encode
  | .constants => Constant.encode
  | .identifiers => encodeIdentifier
  | .addresses => Address.bytes

/-- A record fits a table. -/
def Fits : (p : Pool) → p.Record → Prop
  | .constants => Constant.Fits
  | .identifiers => fun name => Utf8.size name ≤ maxIdentifierLength
  | .moduleHandles | .addresses => fun _ => True

end Pool

namespace Module

def records (m : Module) : (p : Pool) → List p.Record
  | .moduleHandles => m.handles
  | .constants => m.constants
  | .identifiers => m.identifiers
  | .addresses => m.addresses

/-- The module with other records in one pool. -/
def withRecords (m : Module) : (p : Pool) → List p.Record → Module
  | .moduleHandles, handles => { m with handles }
  | .constants, constants => { m with constants }
  | .identifiers, identifiers => { m with identifiers }
  | .addresses, addresses => { m with addresses }

theorem encodePool_eq (m : Module) (p : Pool) : m.encodePool p = (m.records p).flatMap p.encode := by
  cases p <;> rfl

theorem ext_records {m m' : Module} (hword : m.versionWord = m'.versionWord) (hdirectory : m.directory = m'.directory)
    (hlayout : m.layout = m'.layout) (hself : m.selfHandle = m'.selfHandle)
    (hrecords : ∀ p, m.records p = m'.records p) : m = m' := by
  have hhandles := hrecords .moduleHandles
  have hconstants := hrecords .constants
  have hidentifiers := hrecords .identifiers
  have haddresses := hrecords .addresses
  cases m
  cases m'
  simp only [records] at *
  subst_vars
  rfl

theorem readsAll_readPool (m : Module) (p : Pool) : Read.ReadsAll (m.readPool p) fun _ m' bytes =>
    ∃ as, ((∀ a ∈ as, p.Fits a) ∧ bytes = as.flatMap p.encode) ∧ m' = m.withRecords p as := by
  cases p with
  | moduleHandles => exact (ModuleHandle.readsBack_read.toEnd _).map (m.withRecords .moduleHandles)
  | constants => exact (Constant.readsBack_read.toEnd _).map (m.withRecords .constants)
  | identifiers => exact (readsBack_readIdentifier.toEnd _).map (m.withRecords .identifiers)
  | addresses =>
    have hread := (Address.readsBack_read.toEnd Address.progress_read).map (m.withRecords .addresses)
    refine hread.of_length (P := fun length => length % addressLength ≠ 0) .brokenAddresses ?_
    -- Addresses are all of one length, so the check before them cannot fail where they can be read.
    rintro _ _ _ ⟨as, ⟨-, rfl⟩, -⟩
    rw [List.length_flatMap, List.map_congr_left fun a _ => a.length_bytes]
    simp

/-! ### Filling pools -/

/-- The module with `slots` at the end of its layout and their pools as they are in `source`. -/
def fill (m source : Module) (slots : List Slot) : Module :=
  { m with
    layout := m.layout ++ slots
    identifiers := if .pool .identifiers ∈ slots then source.identifiers else m.identifiers
    constants := if .pool .constants ∈ slots then source.constants else m.constants
    addresses := if .pool .addresses ∈ slots then source.addresses else m.addresses
    handles := if .pool .moduleHandles ∈ slots then source.handles else m.handles }

theorem records_fill (m source : Module) (slots : List Slot) (p : Pool) :
    (m.fill source slots).records p = if .pool p ∈ slots then source.records p else m.records p := by
  cases p <;> rfl

theorem fill_nil (m source : Module) : m.fill source [] = m := by
  refine ext_records rfl rfl (List.append_nil _) rfl fun p => ?_
  rw [records_fill, if_neg List.not_mem_nil]

theorem fill_cons (m source : Module) (slot : Slot) (slots : List Slot) :
    m.fill source (slot :: slots) = (m.fill source [slot]).fill source slots := by
  refine ext_records rfl rfl (List.append_cons _ _ _) rfl fun p => ?_
  simp only [records_fill, List.mem_cons, List.not_mem_nil, or_false]
  by_cases hmem : Slot.pool p ∈ slots <;> simp [hmem]

theorem fill_congr {source source' : Module} (m : Module) {slots : List Slot}
    (h : ∀ p, .pool p ∈ slots → source.records p = source'.records p) : m.fill source slots = m.fill source' slots := by
  refine ext_records rfl rfl rfl rfl fun p => ?_
  rw [records_fill, records_fill]
  split
  · exact h p ‹_›
  · rfl

/-- The records of the pools among `slots` fit their tables. -/
def Fits (m : Module) (slots : List Slot) : Prop := ∀ p, .pool p ∈ slots → ∀ a ∈ m.records p, p.Fits a

theorem fill_pool (m source : Module) (p : Pool) : m.fill source [.pool p] =
    { m.withRecords p (source.records p) with layout := (m.withRecords p (source.records p)).layout ++ [.pool p] } := by
  cases p <;> simp [fill, withRecords, records]

theorem fill_carried (m source : Module) (table : Carried) (contents : List UInt8) :
    m.fill source [.carried table contents] = { m with layout := m.layout ++ [.carried table contents] } := by
  simp [fill]

theorem records_withRecords (m : Module) (p : Pool) (as : List p.Record) (layout : List Slot) :
    { m.withRecords p as with layout }.records p = as := by
  cases p <;> rfl

theorem fits_pool {m : Module} {p : Pool} : m.Fits [.pool p] ↔ ∀ a ∈ m.records p, p.Fits a := by
  simp [Fits]

theorem reads_readTable (m : Module) (e : Entry) : Read.Reads (m.readTable e) fun _ m' bytes =>
    ∃ slot, m' = m.fill m' [slot] ∧ m'.Fits [slot] ∧ (slot.kind = e.kind ∧ (m'.encodeSlot slot).length = e.length) ∧
      bytes = m'.encodeSlot slot := by
  obtain ⟨⟨kind, offset, length⟩, place⟩ := e
  cases kind with
  | pool p =>
    have hpool (start : Nat) (contents : List UInt8) := ((m.readsAll_readPool p).inside ⟨contents, start⟩).map
      fun m₁ => { m₁ with layout := m₁.layout ++ [Slot.pool p] }
    refine (Read.reads_offset.bind fun start => (Read.reads_bytes length).bind (hpool start)).of_iff
      fun start m' bytes => ?_
    constructor
    · intro h
      obtain ⟨_, _, _, ⟨rfl, rfl⟩, ⟨contents, _, _, ⟨rfl, rfl⟩, ⟨_, ⟨⟨as, ⟨has, hbytes⟩, rfl⟩, rfl⟩, rfl⟩,
        rfl⟩, rfl⟩ := h
      dsimp only at hbytes
      refine ⟨.pool p, ?_, ?_, ⟨rfl, ?_⟩, ?_⟩
      · rw [fill_pool, records_withRecords]
      · rw [fits_pool, records_withRecords]
        exact has
      · rw [encodeSlot, encodePool_eq, records_withRecords, ← hbytes]
      · rw [encodeSlot, encodePool_eq, records_withRecords, ← hbytes, List.nil_append, List.append_nil]
    · intro h
      obtain ⟨slot, hfill, hfits, ⟨hkind, hlen⟩, rfl⟩ := h
      cases slot with
      | pool q =>
        cases hkind
        rw [fits_pool] at hfits
        rw [fill_pool] at hfill
        exact ⟨start, [], _, ⟨rfl, rfl⟩, ⟨_, _, [], ⟨hlen, rfl⟩,
          ⟨_, ⟨⟨_, ⟨hfits, encodePool_eq m' p⟩, rfl⟩, rfl⟩, hfill⟩, (List.append_nil _).symm⟩, rfl⟩
      | carried table contents => cases hkind
  | carried table =>
    refine (Read.reads_offset.bind fun start => (Read.reads_bytes length).map
      fun contents => { m with layout := m.layout ++ [Slot.carried table contents] }).of_iff fun start m' bytes => ?_
    constructor
    · intro h
      obtain ⟨_, _, _, ⟨rfl, rfl⟩, ⟨contents, ⟨rfl, rfl⟩, rfl⟩, rfl⟩ := h
      refine ⟨.carried table _, (fill_carried _ _ _ _).symm, by simp [Fits], ⟨rfl, rfl⟩, rfl⟩
    · intro h
      obtain ⟨slot, hfill, -, ⟨hkind, hlen⟩, rfl⟩ := h
      cases slot with
      | pool q => cases hkind
      | carried table' contents =>
        cases hkind
        rw [fill_carried] at hfill
        exact ⟨start, [], _, ⟨rfl, rfl⟩, ⟨contents, ⟨hlen, rfl⟩, hfill⟩, rfl⟩

/-! ### All tables -/

/-- Whether a table's records are the same in two modules. -/
def SameSlot (m m' : Module) : Slot → Prop
  | .pool p => m.records p = m'.records p
  | .carried _ _ => True

theorem sameSlot_fill {m source : Module} {slot : Slot} {slots : List Slot} (h : slot ∉ slots) :
    SameSlot (m.fill source slots) m slot := by
  cases slot with
  | pool p => exact (records_fill m source slots p).trans (if_neg h)
  | carried table contents => trivial

theorem sameSlot_fill_self (m source : Module) (slot : Slot) : SameSlot (m.fill source [slot]) source slot := by
  cases slot with
  | pool p => exact (records_fill m source [.pool p] p).trans (if_pos (List.mem_singleton_self _))
  | carried table contents => trivial

section SameSlot
variable {m m' : Module} {slot : Slot} (h : SameSlot m m' slot)
include h

theorem SameSlot.fill_eq (m₀ : Module) : m₀.fill m [slot] = m₀.fill m' [slot] := by
  refine fill_congr m₀ fun p hp => ?_
  obtain rfl := List.mem_singleton.mp hp
  exact h

theorem SameSlot.encodeSlot_eq : m.encodeSlot slot = m'.encodeSlot slot := by
  cases slot with
  | pool p =>
    rw [encodeSlot, encodeSlot, encodePool_eq, encodePool_eq]
    exact congrArg _ h
  | carried table contents => rfl

theorem SameSlot.fits_iff : m.Fits [slot] ↔ m'.Fits [slot] := by
  cases slot with
  | pool p =>
    rw [fits_pool, fits_pool]
    exact iff_of_eq (congrArg (fun as => ∀ a ∈ as, p.Fits a) h)
  | carried table contents => simp [Fits]

end SameSlot

theorem fits_cons {m : Module} {slot : Slot} {slots : List Slot} :
    m.Fits (slot :: slots) ↔ m.Fits [slot] ∧ m.Fits slots := by
  simp only [Fits, List.mem_cons, List.not_mem_nil, or_false]
  constructor
  · intro h
    exact ⟨fun p hp => h p (.inl hp), fun p hp => h p (.inr hp)⟩
  · rintro ⟨hslot, hslots⟩ p (hp | hp)
    · exact hslot p hp
    · exact hslots p hp

/-- Tables of different kinds fill a module one after the other. -/
theorem reads_foldlM_readTable (m : Module) (es : List Entry) (h : (es.map (·.kind)).Nodup) :
    Read.Reads (es.foldlM readTable m) fun _ m' bytes => ∃ slots, m' = m.fill m' slots ∧ m'.Fits slots ∧
      slots.map (fun s => (s.kind, (m'.encodeSlot s).length)) = es.map (fun e => (e.kind, e.length)) ∧
      bytes = slots.flatMap m'.encodeSlot := by
  induction es generalizing m with
  | nil =>
    refine (Read.reads_pure m).of_iff fun _ m' bytes => ?_
    constructor
    · intro h'
      obtain ⟨rfl, rfl⟩ := h'
      exact ⟨[], (fill_nil _ _).symm, by simp [Fits], rfl, rfl⟩
    · intro h'
      obtain ⟨slots, hfill, -, hkinds, rfl⟩ := h'
      obtain rfl := List.map_eq_nil_iff.mp hkinds
      rw [fill_nil] at hfill
      exact ⟨hfill, rfl⟩
  | cons e es ih =>
    obtain ⟨hnotin, hnodup⟩ := List.nodup_cons.mp h
    -- A table that has been read is not filled again by those after it.
    have hfresh {slot : Slot} {slots : List Slot} {m' : Module} (hkind : slot.kind = e.kind)
        (hkinds : slots.map (fun s => (s.kind, (m'.encodeSlot s).length)) = es.map fun e => (e.kind, e.length)) :
        slot ∉ slots := by
      intro hmem
      have hlisted := List.mem_map_of_mem (f := fun s => (s.kind, (m'.encodeSlot s).length)) hmem
      rw [hkinds] at hlisted
      obtain ⟨e', he', heq⟩ := List.mem_map.mp hlisted
      exact hnotin (List.mem_map.mpr ⟨e', he', (Prod.mk.inj heq).1.trans hkind⟩)
    rw [List.foldlM_cons]
    refine ((reads_readTable m e).bind fun m₁ => ih m₁ hnodup).of_iff fun _ m' bytes => ?_
    constructor
    · intro h'
      obtain ⟨m₁, _, _, ⟨slot, hfill₁, hfits₁, ⟨hkind, hlen⟩, rfl⟩, ⟨slots, hfill, hfits, hkinds, rfl⟩, rfl⟩ := h'
      have hsame : SameSlot m' m₁ slot := by
        rw [hfill]
        exact sameSlot_fill (hfresh hkind hkinds)
      refine ⟨slot :: slots, ?_, ?_, ?_, ?_⟩
      · rw [fill_cons, hsame.fill_eq, ← hfill₁]
        exact hfill
      · exact fits_cons.mpr ⟨hsame.fits_iff.mpr hfits₁, hfits⟩
      · rw [List.map_cons, List.map_cons, hkinds, hsame.encodeSlot_eq, hkind, hlen]
      · rw [List.flatMap_cons, hsame.encodeSlot_eq]
    · intro h'
      obtain ⟨slots, hfill, hfits, hkinds, rfl⟩ := h'
      obtain ⟨slot, slots, rfl, hslot, hkinds⟩ := List.map_eq_cons_iff.mp hkinds
      obtain ⟨hkind, hlen⟩ := Prod.mk.inj hslot
      obtain ⟨hfits₁, hfits⟩ := fits_cons.mp hfits
      have hsame := sameSlot_fill_self m m' slot
      refine ⟨m.fill m' [slot], _, _, ⟨slot, ?_, hsame.fits_iff.mpr hfits₁, ⟨hkind, ?_⟩, rfl⟩,
        ⟨slots, ?_, hfits, hkinds, rfl⟩, ?_⟩
      · exact (hsame.fill_eq m).symm
      · rw [hsame.encodeSlot_eq, hlen]
      · rw [← fill_cons]
        exact hfill
      · rw [hsame.encodeSlot_eq, List.flatMap_cons]

end Module

end Stencil
