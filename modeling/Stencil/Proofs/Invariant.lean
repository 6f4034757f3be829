import Stencil.Proofs.Planning

/-! What editing keeps. Edits change names and the data of constants; they add no record and take none away, so
    a table that is empty stays empty and the tables keep their order. A module that was read from bytes can
    therefore be written and read again after any edits, those that fail included. -/

namespace Stencil

namespace Module

/-- `m'` differs from `m` in the names of identifiers and the data of constants at most. -/
structure Kept (m m' : Module) : Prop where
  versionWord : m'.versionWord = m.versionWord
  directory : m'.directory = m.directory
  layout : m'.layout = m.layout
  identifiers : m'.identifiers.length = m.identifiers.length
  types : m'.constants.map (·.type) = m.constants.map (·.type)
  addresses : m'.addresses = m.addresses
  handles : m'.handles = m.handles
  selfHandle : m'.selfHandle = m.selfHandle

namespace Kept
variable {m m' m'' : Module}

theorem refl (m : Module) : Kept m m := ⟨rfl, rfl, rfl, rfl, rfl, rfl, rfl, rfl⟩

theorem trans (h : Kept m m') (h' : Kept m' m'') : Kept m m'' where
  versionWord := h'.versionWord.trans h.versionWord
  directory := h'.directory.trans h.directory
  layout := h'.layout.trans h.layout
  identifiers := h'.identifiers.trans h.identifiers
  types := h'.types.trans h.types
  addresses := h'.addresses.trans h.addresses
  handles := h'.handles.trans h.handles
  selfHandle := h'.selfHandle.trans h.selfHandle

theorem length_records (h : Kept m m') (p : Pool) : (m'.records p).length = (m.records p).length := by
  cases p with
  | identifiers => exact h.identifiers
  | constants =>
    have hlen := congrArg List.length h.types
    rw [List.length_map, List.length_map] at hlen
    exact hlen
  | addresses => exact congrArg List.length h.addresses
  | moduleHandles => exact congrArg List.length h.handles

theorem dangling? (h : Kept m m') : m'.dangling? = m.dangling? :=
  dangling?_congr h.identifiers (congrArg List.length h.addresses) h.handles h.selfHandle

end Kept

/-! ### Empty tables -/

theorem encode_record_ne_nil (p : Pool) (a : p.Record) : p.encode a ≠ [] := by
  cases p with
  | moduleHandles => exact fun h => Uleb128.encode_ne_nil _ (List.append_eq_nil_iff.mp h).1
  | constants =>
    intro h
    exact Signature.encode_ne_nil _ (List.append_eq_nil_iff.mp (List.append_eq_nil_iff.mp h).1).1
  | identifiers => exact fun h => Uleb128.encode_ne_nil _ (List.append_eq_nil_iff.mp h).1
  | addresses =>
    intro h
    have hlen := Address.length_bytes a
    rw [show a.bytes = [] from h] at hlen
    cases hlen

/-- A pool's table is empty exactly if the pool has no records. -/
theorem encodePool_eq_nil_iff (m : Module) (p : Pool) : m.encodePool p = [] ↔ (m.records p).length = 0 := by
  rw [encodePool_eq, List.flatMap_eq_nil_iff, List.length_eq_zero_iff]
  constructor
  · intro h
    exact List.eq_nil_iff_forall_not_mem.mpr fun a ha => encode_record_ne_nil p a (h a ha)
  · intro h a ha
    rw [h] at ha
    cases ha

theorem Kept.encodeSlot_eq_nil_iff {m m' : Module} (h : Kept m m') (slot : Slot) :
    m'.encodeSlot slot = [] ↔ m.encodeSlot slot = [] := by
  cases slot with
  | pool p => rw [encodeSlot, encodeSlot, encodePool_eq_nil_iff, encodePool_eq_nil_iff, h.length_records]
  | carried table contents => rfl

/-- What editing keeps is enough for a module to stay well-formed, if its names still fit. -/
theorem WellFormed.of_kept {m m' : Module} (h : m.WellFormed) (hkept : Kept m m')
    (hnames : ∀ name ∈ m'.identifiers, Utf8.size name ≤ maxIdentifierLength) : m'.WellFormed where
  version := by
    rw [Module.version, hkept.versionWord]
    exact h.version
  nodup := hkept.directory ▸ h.nodup
  perm := by
    rw [hkept.directory, hkept.layout]
    exact h.perm
  ordered := by
    -- The same tables are empty as before, wherever they stand now.
    have hordered := h.ordered
    rw [tables, List.isChain_map] at hordered
    rw [tables, List.isChain_map, hkept.layout, hkept.directory]
    refine hordered.imp fun a b hab ha hb => hab ?_ ?_
    · exact (hkept.encodeSlot_eq_nil_iff a).mp ha
    · exact (hkept.encodeSlot_eq_nil_iff b).mp hb
  absent := by
    intro p hp
    rw [hkept.layout] at hp
    rw [← List.length_eq_zero_iff, hkept.length_records, h.absent p hp, List.length_nil]
  identifiers := hnames
  constants := by
    intro c hc
    have htype : c.type ∈ m.constants.map (·.type) := hkept.types ▸ List.mem_map_of_mem hc
    obtain ⟨c', hc', htype⟩ := List.mem_map.mp htype
    exact htype ▸ h.constants c' hc'
  selfHandle := by
    rw [hkept.selfHandle, Module.version, hkept.versionWord]
    exact h.selfHandle

end Module

/-! ### Edits -/

namespace Edit

/-- An edit keeps modules well-formed, whether it succeeds or fails. -/
def Keeps {α : Type} (x : Edit α) : Prop := ∀ m, m.WellFormed → (x.after m).WellFormed ∧ m.Kept (x.after m)

section Keeps
variable {α β : Type}

theorem keeps_pure (a : α) : Keeps (pure a) := fun m h => ⟨h, .refl m⟩

theorem Keeps.bind {x : Edit α} {f : α → Edit β} (hx : Keeps x) (hf : ∀ a, Keeps (f a)) : Keeps (x >>= f) := by
  intro m h
  obtain ⟨hwell, hkept⟩ := hx m h
  unfold after at hwell hkept ⊢
  cases heq : x m with
  | error error m' =>
    rw [heq] at hwell hkept
    rw [bind_of_error heq]
    exact ⟨hwell, hkept⟩
  | ok a m' =>
    rw [heq] at hwell hkept
    rw [bind_of_ok heq]
    obtain ⟨hwell', hkept'⟩ := hf a m' hwell
    exact ⟨hwell', hkept.trans hkept'⟩

end Keeps

theorem keeps_replace (e : Replacement) : Keeps (replace e) := by
  intro m h
  unfold after
  rcases replace_cases e m with ⟨-, heq⟩ | ⟨-, error, heq⟩
  · rw [heq]
    have hkept : m.Kept (m.withData e.index e.value.encode) :=
      ⟨rfl, rfl, rfl, rfl, m.map_type_withData _ _, rfl, rfl, rfl⟩
    exact ⟨h.of_kept hkept h.identifiers, hkept⟩
  · rw [heq]
    exact ⟨h, .refl m⟩

theorem keeps_rename (r : Renaming) : Keeps (rename r) := by
  intro m h
  unfold after
  rcases rename_cases r m with ⟨hr, heq⟩ | ⟨-, error, heq⟩
  · rw [heq]
    have hkept : m.Kept (m.renamed r) := ⟨rfl, rfl, rfl, List.length_map _, rfl, rfl, rfl, rfl⟩
    refine ⟨h.of_kept hkept fun name hname => ?_, hkept⟩
    obtain ⟨old, hold, rfl⟩ := List.mem_map.mp hname
    by_cases hsame : r.apply old = old
    · rw [hsame]
      exact h.identifiers old hold
    · -- A name that changes was checked before it was written.
      have hnew : r.apply old ∈ m.newNames r := List.mem_filterMap.mpr ⟨old, hold, if_neg hsame⟩
      have hname := hr.names _ hnew
      rw [isNewName, Bool.and_eq_true, decide_eq_true_eq] at hname
      exact hname.2
  · rw [heq]
    exact ⟨h, .refl m⟩

theorem keeps_plan (p : Plan) : Keeps p.edit := by
  have hconstants : Keeps (p.constants.forM replace) := by
    induction p.constants with
    | nil => exact keeps_pure ()
    | cons e es ih => exact (keeps_replace e).bind fun _ => ih
  exact hconstants.bind fun _ => keeps_rename p.renames

end Edit

theorem Plan.keeps_apply {p : Plan} {m m' : Module} (h : m.WellFormed) (happly : p.apply m = .ok m') :
    m'.WellFormed ∧ m.Kept m' := by
  obtain ⟨count, heq⟩ := apply_eq_ok_iff_edit.mp happly
  have hkeeps := Edit.keeps_plan p m h
  rw [Edit.after, heq] at hkeeps
  exact hkeeps

/-- A call that edits a module. -/
inductive Call where
  | replace (e : Replacement)
  | rename (r : Renaming)
  | apply (p : Plan)

namespace Call

/-- The module that there is after a call. A plan is applied to a copy, which is given up where it fails. -/
def run : Call → Module → Module
  | .replace e, m => (Edit.replace e).after m
  | .rename r, m => (Edit.rename r).after m
  | .apply p, m =>
    match p.apply m with
    | .ok m' => m'
    | .error _ => m

/-- The module that there is after calls, one after the other. -/
def runAll (calls : List Call) (m : Module) : Module := calls.foldl (fun m call => call.run m) m

theorem keeps_run (call : Call) {m : Module} (h : m.WellFormed) : (call.run m).WellFormed ∧ m.Kept (call.run m) := by
  cases call with
  | replace e => exact Edit.keeps_replace e m h
  | rename r => exact Edit.keeps_rename r m h
  | apply p =>
    cases happly : p.apply m with
    | error error =>
      simp only [run, happly]
      exact ⟨h, .refl m⟩
    | ok m' =>
      simp only [run, happly]
      exact Plan.keeps_apply h happly

theorem keeps_runAll (calls : List Call) {m : Module} (h : m.WellFormed) :
    (runAll calls m).WellFormed ∧ m.Kept (runAll calls m) := by
  induction calls generalizing m with
  | nil => exact ⟨h, .refl m⟩
  | cons call calls ih =>
    obtain ⟨hwell, hkept⟩ := call.keeps_run h
    obtain ⟨hwell', hkept'⟩ := ih hwell
    exact ⟨hwell', hkept.trans hkept'⟩

/-- A module that was read and edited by any calls is written, unless its tables are too long, and read again as
    it is; its pools keep their sizes, and its references are as good as they were. -/
theorem decode_encode_runAll {bytes : List UInt8} {m₀ : Module} (h : Module.decode bytes = .ok m₀)
    (calls : List Call) (hlen : (runAll calls m₀).contents.length < 2 ^ 32) :
    (∃ out, (runAll calls m₀).encode = .ok out ∧ Module.decode out = .ok (runAll calls m₀)) ∧
      m₀.Kept (runAll calls m₀) ∧ (runAll calls m₀).dangling? = m₀.dangling? := by
  obtain ⟨hwell, hkept⟩ := keeps_runAll calls (Module.wellFormed_of_decode h)
  exact ⟨hwell.decode_encode (Nat.le_of_lt_succ hlen), hkept, hkept.dangling?⟩

/-- Calls that edit the sample. The last one expects values that those before it have replaced, and fails. -/
def sampleCalls : List Call :=
  .rename (.ofModule "papa" "mama") :: Plan.sample.constants.map .replace ++ [.apply Plan.sample]

theorem decode_encode_sampleCalls : Module.decode Module.sampleBytes = .ok Module.sample ∧
    (runAll sampleCalls Module.sample).contents.length < 2 ^ 32 ∧
    (∃ out, (runAll sampleCalls Module.sample).encode = .ok out ∧
      Module.decode out = .ok (runAll sampleCalls Module.sample)) ∧
    Module.sample.Kept (runAll sampleCalls Module.sample) ∧
    (runAll sampleCalls Module.sample).dangling? = Module.sample.dangling? :=
  have hdecode : Module.decode Module.sampleBytes = .ok Module.sample := by decide +kernel
  have hlen : (runAll sampleCalls Module.sample).contents.length < 2 ^ 32 := by decide +kernel
  ⟨hdecode, hlen, decode_encode_runAll hdecode sampleCalls hlen⟩

end Call

end Stencil
