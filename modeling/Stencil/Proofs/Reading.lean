import Mathlib.Algebra.Group.Nat.Defs
import Stencil.Bytes.Reader

/-! What a reading step accepts. `Reads x W` says which bytes a step consumes for which result, and that it
    leaves all that follows as it is; steps in sequence accept the concatenations of what each accepts. Most
    steps read back what a writer makes of the values that fit (`ReadsBack`). -/

namespace Stencil

/-- `r` stands before `bytes` and `r'` right after them. -/
def Reader.Consumes (r : Reader) (bytes : List UInt8) (r' : Reader) : Prop :=
  r.rest = bytes ++ r'.rest ∧ r'.offset = r.offset + bytes.length

namespace Reader
variable {r r' r'' : Reader} {u v : List UInt8}

theorem consumes_nil : r.Consumes [] r' ↔ r' = r := by
  constructor
  · intro h
    obtain ⟨hrest, hoffset⟩ := h
    cases r
    cases r'
    simp_all
  · rintro rfl
    exact ⟨rfl, rfl⟩

theorem consumes_append : r.Consumes (u ++ v) r'' ↔ ∃ r', r.Consumes u r' ∧ r'.Consumes v r'' := by
  constructor
  · intro h
    obtain ⟨hrest, hoffset⟩ := h
    rw [List.length_append] at hoffset
    exact ⟨⟨v ++ r''.rest, r.offset + u.length⟩, ⟨by rw [hrest, List.append_assoc], rfl⟩, rfl, by dsimp only; omega⟩
  · intro h
    obtain ⟨r', ⟨hrest, hoffset⟩, hrest', hoffset'⟩ := h
    refine ⟨by rw [hrest, hrest', List.append_assoc], ?_⟩
    rw [hoffset', hoffset, List.length_append]
    omega

end Reader

namespace Read
variable {α β : Type} {x : Read α} {V W : Nat → α → List UInt8 → Prop}

/-- A step gives `a` and consumes `bytes` exactly where `W start a bytes` holds; `start` is the offset at which
    it begins. -/
def Reads (x : Read α) (W : Nat → α → List UInt8 → Prop) : Prop :=
  ∀ r a r', x r = .ok a r' ↔ ∃ bytes, W r.offset a bytes ∧ r.Consumes bytes r'

/-- A step reads the values that fit from the bytes that are written for them, and nothing else. -/
def ReadsBack (x : Read α) (Fits : α → Prop) (encode : α → List UInt8) : Prop :=
  Reads x fun _ a bytes => Fits a ∧ bytes = encode a

/-- A step gives `a` exactly where `W start a bytes` holds of all the bytes before it. -/
def ReadsAll (x : Read α) (W : Nat → α → List UInt8 → Prop) : Prop :=
  ∀ r a, (∃ r', x r = .ok a r') ↔ W r.offset a r.rest

theorem bind_of_ok {r r' : Reader} {a : α} (h : x r = .ok a r') (f : α → Read β) : (x >>= f) r = f a r' := by
  change EStateM.bind x f r = _
  unfold EStateM.bind
  rw [h]

theorem bind_of_error {r r' : Reader} {fault : Fault} (h : x r = .error fault r') (f : α → Read β) :
    (x >>= f) r = .error fault r' := by
  change EStateM.bind x f r = _
  unfold EStateM.bind
  rw [h]

/-- Steps that come to the same at one place may stand there for each other. -/
theorem bind_congr {y : Read α} {r : Reader} (h : x r = y r) (f : α → Read β) : (x >>= f) r = (y >>= f) r := by
  change EStateM.bind x f r = EStateM.bind y f r
  unfold EStateM.bind
  rw [h]

theorem bind_eq_ok_iff {f : α → Read β} {r : Reader} {b : β} {r'' : Reader} :
    (x >>= f) r = .ok b r'' ↔ ∃ a r', x r = .ok a r' ∧ f a r' = .ok b r'' := by
  refine ⟨bind_eq_ok, ?_⟩
  intro h
  obtain ⟨a, r', hx, hf⟩ := h
  exact (bind_of_ok hx f).trans hf

/-! ### Steps -/

theorem Reads.of_iff (hx : Reads x V) (h : ∀ start a bytes, V start a bytes ↔ W start a bytes) : Reads x W := by
  intro r a r'
  rw [hx r a r']
  exact exists_congr fun bytes => and_congr_left fun _ => h r.offset a bytes

theorem reads_pure (a : α) : Reads (pure a) fun _ b bytes => b = a ∧ bytes = [] := by
  intro r b r'
  constructor
  · intro h
    cases h
    exact ⟨[], ⟨rfl, rfl⟩, Reader.consumes_nil.mpr rfl⟩
  · intro h'
    obtain ⟨_, ⟨rfl, rfl⟩, h⟩ := h'
    rw [Reader.consumes_nil.mp h]
    rfl

theorem reads_offset : Reads offset fun start a bytes => a = start ∧ bytes = [] := by
  intro r a r'
  constructor
  · intro h
    cases h
    exact ⟨[], ⟨rfl, rfl⟩, Reader.consumes_nil.mpr rfl⟩
  · intro h'
    obtain ⟨_, ⟨rfl, rfl⟩, h⟩ := h'
    rw [Reader.consumes_nil.mp h]
    rfl

theorem reads_failAt (offset : Nat) (reason : Reason) (h : ∀ start a bytes, ¬W start a bytes) :
    Reads (failAt offset reason) W := by
  intro r a r'
  simp [failAt, h]

theorem reads_fail (reason : Reason) (h : ∀ start a bytes, ¬W start a bytes) : Reads (fail reason) W := by
  intro r a r'
  simp [fail, h]

theorem reads_byte : Reads byte fun _ b bytes => bytes = [b] := by
  intro r b r'
  obtain ⟨rest, start⟩ := r
  unfold byte Reader.Consumes
  cases rest with
  | nil => simp
  | cons first rest =>
    obtain ⟨rest', offset'⟩ := r'
    simp
    constructor
    · intro h
      obtain ⟨rfl, rfl, rfl⟩ := h
      exact ⟨⟨rfl, rfl⟩, rfl⟩
    · intro h
      obtain ⟨⟨rfl, rfl⟩, rfl⟩ := h
      exact ⟨rfl, rfl, rfl⟩

theorem reads_bytes (count : Nat) : Reads (bytes count) fun _ a bytes => a.length = count ∧ bytes = a := by
  intro r a r'
  obtain ⟨rest, start⟩ := r
  unfold bytes
  dsimp only
  constructor
  · intro h
    split at h
    · rename_i hlen
      cases h
      exact ⟨_, ⟨hlen, rfl⟩, (List.take_append_drop count rest).symm, by rw [hlen]⟩
    · cases h
  · intro h'
    obtain ⟨_, ⟨rfl, rfl⟩, hrest, hoffset⟩ := h'
    obtain ⟨rest', offset'⟩ := r'
    dsimp only at hrest hoffset
    subst hrest hoffset
    rw [List.take_left, List.drop_left, if_pos rfl]

/-! ### Sequences -/

/-- More bytes after the input are left where they are. -/
theorem Reads.append (hx : Reads x W) {r r' : Reader} {a : α} (h : x r = .ok a r') (more : List UInt8) :
    x ⟨r.rest ++ more, r.offset⟩ = .ok a ⟨r'.rest ++ more, r'.offset⟩ := by
  obtain ⟨bytes, hW, hrest, hoffset⟩ := (hx r a r').mp h
  refine (hx _ a _).mpr ⟨bytes, hW, ?_, hoffset⟩
  rw [hrest, List.append_assoc]

theorem Reads.bind {f : α → Read β} {W : α → Nat → β → List UInt8 → Prop} (hx : Reads x V)
    (hf : ∀ a, Reads (f a) (W a)) :
    Reads (x >>= f) fun start b bytes => ∃ a u v, V start a u ∧ W a (start + u.length) b v ∧ bytes = u ++ v := by
  intro r b r''
  rw [bind_eq_ok_iff]
  constructor
  · intro h
    obtain ⟨a, r', h₁, h₂⟩ := h
    obtain ⟨u, hu, hru⟩ := (hx r a r').mp h₁
    obtain ⟨v, hv, hrv⟩ := (hf a r' b r'').mp h₂
    exact ⟨u ++ v, ⟨a, u, v, hu, hru.2 ▸ hv, rfl⟩, Reader.consumes_append.mpr ⟨r', hru, hrv⟩⟩
  · intro h
    obtain ⟨_, ⟨a, u, v, hu, hv, rfl⟩, hr⟩ := h
    obtain ⟨r', hru, hrv⟩ := Reader.consumes_append.mp hr
    exact ⟨a, r', (hx r a r').mpr ⟨u, hu, hru⟩, (hf a r' b r'').mpr ⟨v, hru.2 ▸ hv, hrv⟩⟩

theorem ReadsBack.bind {f : α → Read β} {Fits : α → Prop} {encode : α → List UInt8}
    {W : α → Nat → β → List UInt8 → Prop} (hx : ReadsBack x Fits encode) (hf : ∀ a, Reads (f a) (W a)) :
    Reads (x >>= f) fun start b bytes =>
      ∃ a v, Fits a ∧ W a (start + (encode a).length) b v ∧ bytes = encode a ++ v := by
  refine (Reads.bind hx hf).of_iff fun start b bytes => ?_
  constructor
  · intro h
    obtain ⟨a, _, v, ⟨ha, rfl⟩, hv, rfl⟩ := h
    exact ⟨a, v, ha, hv, rfl⟩
  · intro h
    obtain ⟨a, v, ha, hv, rfl⟩ := h
    exact ⟨a, _, v, ⟨ha, rfl⟩, hv, rfl⟩

/-- A value that begins with a byte is read back if its other bytes are. -/
theorem ReadsBack.of_byte {f : UInt8 → Read α} {Fits : α → Prop} {encode : α → List UInt8}
    (hne : ∀ a, Fits a → encode a ≠ []) (hf : ∀ b, Reads (f b) fun _ a rest => Fits a ∧ encode a = b :: rest) :
    ReadsBack (byte >>= f) Fits encode := by
  refine (reads_byte.bind hf).of_iff fun _ a bytes => ?_
  constructor
  · intro h
    obtain ⟨b, _, rest, rfl, ⟨ha, heq⟩, rfl⟩ := h
    exact ⟨ha, heq.symm⟩
  · intro h
    obtain ⟨ha, rfl⟩ := h
    obtain ⟨b, rest, heq⟩ := List.exists_cons_of_ne_nil (hne a ha)
    exact ⟨b, [b], rest, rfl, ⟨ha, heq⟩, heq⟩

/-- Where a step begins matters only to the faults of the steps after it. -/
theorem Reads.after_offset {f : Nat → Read α} (hf : ∀ start, Reads (f start) W) : Reads (offset >>= f) W := by
  refine (reads_offset.bind hf).of_iff fun start a bytes => ?_
  constructor
  · intro h
    obtain ⟨_, _, v, ⟨rfl, rfl⟩, hv, rfl⟩ := h
    exact hv
  · intro h
    exact ⟨start, [], bytes, ⟨rfl, rfl⟩, h, rfl⟩

theorem Reads.map (hx : Reads x V) (f : α → β) :
    Reads (do return f (← x)) fun start b bytes => ∃ a, V start a bytes ∧ b = f a := by
  refine (hx.bind fun a => reads_pure (f a)).of_iff fun start b bytes => ?_
  constructor
  · intro h
    obtain ⟨a, u, _, hu, ⟨rfl, rfl⟩, rfl⟩ := h
    exact ⟨a, (List.append_nil u).symm ▸ hu, rfl⟩
  · intro h
    obtain ⟨a, ha, rfl⟩ := h
    exact ⟨a, bytes, [], ha, ⟨rfl, rfl⟩, (List.append_nil bytes).symm⟩

theorem ReadsBack.times {record : Read α} {Fits : α → Prop} {encode : α → List UInt8}
    (h : ReadsBack record Fits encode) (count : Nat) :
    ReadsBack (times record count) (fun as => as.length = count ∧ ∀ a ∈ as, Fits a) (·.flatMap encode) := by
  induction count with
  | zero =>
    refine (reads_pure ([] : List α)).of_iff fun _ as bytes => ?_
    constructor
    · intro h'
      obtain ⟨rfl, rfl⟩ := h'
      simp
    · intro h'
      obtain ⟨⟨hlen, -⟩, rfl⟩ := h'
      obtain rfl := List.length_eq_zero_iff.mp hlen
      simp
  | succ count ih =>
    refine (h.bind fun a => ih.map (a :: ·)).of_iff fun _ as bytes => ?_
    constructor
    · intro h'
      obtain ⟨a, _, ha, ⟨as', ⟨⟨hlen, has⟩, rfl⟩, rfl⟩, rfl⟩ := h'
      exact ⟨⟨by rw [List.length_cons, hlen], List.forall_mem_cons.mpr ⟨ha, has⟩⟩, rfl⟩
    · intro h'
      obtain ⟨⟨hlen, has⟩, rfl⟩ := h'
      obtain ⟨a, as', rfl⟩ := List.exists_cons_of_length_eq_add_one hlen
      obtain ⟨ha, has'⟩ := List.forall_mem_cons.mp has
      exact ⟨a, _, ha, ⟨as', ⟨⟨by simpa using hlen, has'⟩, rfl⟩, rfl⟩, rfl⟩

/-! ### Whole inputs -/

section ToEnd
variable {record : Read α} (progress : Progress record) {r r' : Reader}

theorem toEnd_of_nil (h : r.rest = []) : toEnd record progress r = .ok [] r := by
  rw [toEnd, if_pos (List.isEmpty_iff.mpr h)]

theorem toEnd_of_error {fault : Fault} (hne : r.rest ≠ []) (h : record r = .error fault r') :
    toEnd record progress r = .error fault r' := by
  rw [toEnd, if_neg (mt List.isEmpty_iff.mp hne)]
  split
  · rename_i heq
    cases heq.symm.trans h
    rfl
  · rename_i heq
    cases h.symm.trans heq

theorem toEnd_of_ok {a : α} (h : record r = .ok a r') : toEnd record progress r =
    match toEnd record progress r' with
    | .error fault r'' => .error fault r''
    | .ok as r'' => .ok (a :: as) r'' := by
  have hlt := progress _ _ _ h
  have hne : ¬r.rest.isEmpty := by
    intro hnil
    rw [List.isEmpty_iff.mp hnil] at hlt
    exact Nat.not_lt_zero _ hlt
  rw [toEnd, if_neg hne]
  split
  · rename_i heq
    cases h.symm.trans heq
  · rename_i heq
    cases h.symm.trans heq
    rfl

theorem toEnd_eq_ok_iff {as : List α} :
    (∃ r', toEnd record progress r = .ok as r') ↔ (r.rest = [] ∧ as = []) ∨ (r.rest ≠ [] ∧
      ∃ a as' r₁, as = a :: as' ∧ record r = .ok a r₁ ∧ ∃ r', toEnd record progress r₁ = .ok as' r') := by
  by_cases hr : r.rest = []
  · rw [toEnd_of_nil progress hr]
    simp [hr, eq_comm]
  · cases hread : record r with
    | error fault r₁ =>
      rw [toEnd_of_error progress hr hread]
      simp [hr]
    | ok a r₁ =>
      rw [toEnd_of_ok progress hread]
      cases hend : toEnd record progress r₁ with
      | error fault r₂ => simp [hr, hend]
      | ok as' r₂ =>
        constructor
        · intro h
          obtain ⟨r', h⟩ := h
          cases h
          exact Or.inr ⟨hr, a, as', r₁, rfl, rfl, r₂, hend⟩
        · intro h
          rcases h with ⟨hnil, -⟩ | ⟨-, a', bs, r₃, rfl, heq, r', hrest⟩
          · exact absurd hnil hr
          · cases heq
            cases hend.symm.trans hrest
            exact ⟨r₂, rfl⟩

end ToEnd

/-- A record takes a byte at least. -/
theorem ReadsBack.encode_ne_nil {record : Read α} {Fits : α → Prop} {encode : α → List UInt8}
    (h : ReadsBack record Fits encode) (progress : Progress record) {a : α} (ha : Fits a) : encode a ≠ [] := by
  intro hnil
  have hread := (h ⟨[], 0⟩ a ⟨[], 0⟩).mpr ⟨encode a, ⟨ha, rfl⟩, by rw [hnil]; exact ⟨rfl, rfl⟩⟩
  exact absurd (progress _ _ _ hread) (Nat.lt_irrefl _)

/-- Records up to the end of the bytes are read back from the records' bytes, one after the other. -/
theorem ReadsBack.toEnd {record : Read α} {Fits : α → Prop} {encode : α → List UInt8}
    (h : ReadsBack record Fits encode) (progress : Progress record) :
    ReadsAll (toEnd record progress) fun _ as bytes => (∀ a ∈ as, Fits a) ∧ bytes = as.flatMap encode := by
  intro r as
  induction as generalizing r with
  | nil =>
    rw [toEnd_eq_ok_iff]
    simp
  | cons a as ih =>
    dsimp only at ih ⊢
    rw [toEnd_eq_ok_iff, List.forall_mem_cons, List.flatMap_cons]
    constructor
    · intro h'
      rcases h' with ⟨-, hnil⟩ | ⟨-, a', as', r₁, heq, hrec, hend⟩
      · cases hnil
      · cases heq
        obtain ⟨bytes, ⟨ha, rfl⟩, hcons⟩ := (h r a r₁).mp hrec
        obtain ⟨has, hrest⟩ := (ih r₁).mp hend
        exact ⟨⟨ha, has⟩, by rw [hcons.1, hrest]⟩
    · intro h'
      obtain ⟨⟨ha, has⟩, hrest⟩ := h'
      have hrec : record r = .ok a ⟨as.flatMap encode, r.offset + (encode a).length⟩ :=
        (h r a _).mpr ⟨encode a, ⟨ha, rfl⟩, hrest, rfl⟩
      have hne : r.rest ≠ [] := by
        rw [hrest]
        exact fun hnil => h.encode_ne_nil progress ha (List.append_eq_nil_iff.mp hnil).1
      exact Or.inr ⟨hne, a, as, _, rfl, hrec, (ih _).mpr ⟨has, rfl⟩⟩

theorem ReadsAll.of_iff (hx : ReadsAll x V) (h : ∀ start a bytes, V start a bytes ↔ W start a bytes) :
    ReadsAll x W :=
  fun r a => (hx r a).trans (h r.offset a r.rest)

theorem readsAll_finish (what : String) (a : α) :
    ReadsAll (do finish what; return a) fun _ b bytes => b = a ∧ bytes = [] := by
  intro r b
  constructor
  · intro h
    obtain ⟨r', h⟩ := h
    obtain ⟨_, r₁, hfinish, hpure⟩ := bind_eq_ok h
    cases hpure
    unfold finish at hfinish
    split at hfinish
    · exact ⟨rfl, List.isEmpty_iff.mp ‹_›⟩
    · cases hfinish
  · intro h'
    obtain ⟨rfl, hnil⟩ := h'
    refine ⟨r, bind_eq_ok_iff.mpr ⟨(), r, ?_, rfl⟩⟩
    rw [finish, if_pos (List.isEmpty_iff.mpr hnil)]

/-- What a step reads may be used to tell what the steps after it read. -/
theorem Reads.bind_all {f : α → Read β} {W : α → Nat → β → List UInt8 → Prop} (hx : Reads x V)
    (hf : ∀ start a u, V start a u → ReadsAll (f a) (W a)) :
    ReadsAll (x >>= f) fun start b bytes =>
      ∃ a u v, V start a u ∧ W a (start + u.length) b v ∧ bytes = u ++ v := by
  intro r b
  constructor
  · intro h
    obtain ⟨r'', h⟩ := h
    obtain ⟨a, r', h₁, h₂⟩ := bind_eq_ok h
    obtain ⟨u, hu, hru⟩ := (hx r a r').mp h₁
    exact ⟨a, u, r'.rest, hu, hru.2 ▸ (hf _ a u hu r' b).mp ⟨r'', h₂⟩, hru.1⟩
  · intro h'
    obtain ⟨a, u, v, hu, hv, hrest⟩ := h'
    obtain ⟨r'', hf'⟩ := (hf _ a u hu ⟨v, r.offset + u.length⟩ b).mpr hv
    exact ⟨r'', bind_eq_ok_iff.mpr ⟨a, _, (hx r a _).mpr ⟨u, hu, hrest, rfl⟩, hf'⟩⟩

theorem ReadsAll.map (hx : ReadsAll x V) (f : α → β) :
    ReadsAll (do return f (← x)) fun start b bytes => ∃ a, V start a bytes ∧ b = f a := by
  intro r b
  constructor
  · intro h
    obtain ⟨r'', h⟩ := h
    obtain ⟨a, r', h₁, h₂⟩ := bind_eq_ok h
    cases h₂
    exact ⟨a, (hx r a).mp ⟨_, h₁⟩, rfl⟩
  · intro h'
    obtain ⟨a, ha, rfl⟩ := h'
    obtain ⟨r', h⟩ := (hx r a).mpr ha
    exact ⟨r', bind_eq_ok_iff.mpr ⟨a, r', h, rfl⟩⟩

theorem inside_of_ok {part part' : Reader} {a : α} (h : x part = .ok a part') (r : Reader) :
    inside part x r = .ok a r := by
  unfold Read.inside
  rw [h]

theorem inside_of_error {part part' : Reader} {fault : Fault} (h : x part = .error fault part') (r : Reader) :
    inside part x r = .error fault r := by
  unfold Read.inside
  rw [h]

/-- A part of the input that is read inside takes no bytes of what follows. -/
theorem ReadsAll.inside (hx : ReadsAll x W) (part : Reader) :
    Reads (inside part x) fun _ a bytes => W part.offset a part.rest ∧ bytes = [] := by
  intro r a r'
  dsimp only
  rw [← hx part a]
  constructor
  · intro h
    cases hresult : x part with
    | ok b part' =>
      cases (inside_of_ok hresult r).symm.trans h
      exact ⟨[], ⟨⟨part', rfl⟩, rfl⟩, Reader.consumes_nil.mpr rfl⟩
    | error fault part' => cases (inside_of_error hresult r).symm.trans h
  · intro h'
    obtain ⟨_, ⟨⟨part', hresult⟩, rfl⟩, h⟩ := h'
    rw [inside_of_ok hresult, Reader.consumes_nil.mp h]

/-- A check that enough bytes are left is no check where all that can be read takes as many. -/
theorem Reads.of_enough (hx : Reads x W) {count : Nat} (reason : Nat → Reason)
    (hcount : ∀ start a bytes, W start a bytes → count ≤ bytes.length) :
    Reads (do
      let left := (← get).rest.length
      if left < count then fail (reason left) else x) W := by
  intro r a r'
  change (if r.rest.length < count then fail (reason r.rest.length) else x) r = .ok a r' ↔ _
  split
  · rename_i hlt
    constructor
    · intro h
      cases h
    · intro h'
      obtain ⟨bytes, hW, hrest, -⟩ := h'
      have hle := hcount r.offset a bytes hW
      rw [hrest, List.length_append] at hlt
      omega
  · exact hx r a r'

/-- A check of the number of bytes that are left is no check where all that can be read passes it. -/
theorem ReadsAll.of_length (hx : ReadsAll x W) {P : Nat → Prop} [DecidablePred P] (reason : Nat → Reason)
    (hpass : ∀ start a bytes, W start a bytes → ¬ P bytes.length) :
    ReadsAll (do
      let left := (← get).rest.length
      if P left then fail (reason left) else x) W := by
  intro r a
  change (∃ r', (if P r.rest.length then fail (reason r.rest.length) else x) r = .ok a r') ↔ _
  split
  · rename_i hbad
    constructor
    · intro h
      obtain ⟨r', h⟩ := h
      cases h
    · intro h
      exact absurd hbad (hpass r.offset a r.rest h)
  · exact hx r a

theorem mapError_eq_ok_iff {ε ε' : Type} {f : ε → ε'} {result : Except ε α} {a : α} :
    result.mapError f = .ok a ↔ result = .ok a := by
  cases result with
  | error error =>
    constructor <;> intro h <;> cases h
  | ok a' =>
    constructor <;> intro h <;> cases h <;> rfl

theorem value_eq_ok_iff {r : Reader} {a : α} : value x r = .ok a ↔ ∃ r', x r = .ok a r' := by
  unfold value
  cases x r <;> simp

theorem value_bind_of_ok {r r' : Reader} {a : α} (h : x r = .ok a r') (f : α → Read β) :
    value (x >>= f) r = value (f a) r' := by
  unfold value
  rw [bind_of_ok h]

theorem ReadsAll.value_eq_ok_iff (hx : ReadsAll x W) {r : Reader} {a : α} :
    value x r = .ok a ↔ W r.offset a r.rest := Read.value_eq_ok_iff.trans (hx r a)

end Read

end Stencil
